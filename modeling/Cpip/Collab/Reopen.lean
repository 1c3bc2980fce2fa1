import Cpip.Lib.Run
import Cpip.Collab.Calls

/-!
# Collaboration engine: reopening documents, one call at a time

* `reopen_iff`  **every document can be opened at every point of a run exactly when the run is edited**.
-/

namespace Collab

open Lts Function List History

section
variable {Op : Type} [DecidableEq Op] (E : Engine Op) (Z : Gzip) (cfg : Config)

/-- **the invariant of a document** -/
structure Known (s : State Op) (d : String) : Prop where
  readable : Readable E Z s.repo d
  positive : ∀ x ∈ s.repo.snapshots d, 0 < x.version
  live : ∀ e, s.registry d = some e → lastVersion (s.repo.snapshots d) ≤ e.version ∧
    (0 < e.version ∧ Stored s.repo d ∨ e.version = 0 ∧ ¬ Stored s.repo d ∧ e.state = .initialized ∧ e.isDirty = false)
  gone : s.registry d = none → (s.repo.metadata d).isSome → Stored s.repo d
  fresh : s.repo.metadata d = none → s.registry d = none ∧ s.repo.snapshots d = [] ∧ s.repo.updates d = []

def Reopens (h : History Op) : Prop :=
  ∀ d r f, (getOrCreateDocument E Z h.state d r f).1.isOk = true

def Edited (h : History Op) : Event → Prop
  | .call (.archive d) => ∀ e, h.state.registry d = some e → 0 < e.version
  | .restart => ∀ d e, h.state.registry d = some e → 0 < e.version
  | _ => True

theorem known_init (d : String) : Known E Z (State.init Op) d where
  readable := ⟨by simp [State.init, Repository.empty], by simp [State.init, Repository.empty]⟩
  positive := by simp [State.init, Repository.empty]
  live := by simp [State.init]
  gone := by simp [State.init, Repository.empty]
  fresh _ := ⟨rfl, rfl, rfl⟩

variable {E Z cfg} {s s' : State Op} {d x : String}

theorem Known.frame (h : Known E Z s d) (hs : s'.repo.snapshots d = s.repo.snapshots d)
    (hu : s'.repo.updates d = s.repo.updates d) (hm : s'.repo.metadata d = s.repo.metadata d)
    (hr : s'.registry d = s.registry d) : Known E Z s' d where
  readable := ⟨by rw [hs]; exact h.readable.snaps, by rw [hu]; exact h.readable.log⟩
  positive := by rw [hs]; exact h.positive
  live := by rw [hs, hr, stored_congr hs hu]; exact h.live
  gone := by rw [hr, hm, stored_congr hs hu]; exact h.gone
  fresh := by rw [hr, hm, hs, hu]; exact h.fresh

theorem Known.reopens (h : Known E Z s d) (r f : String) : (getOrCreateDocument E Z s d r f).1.isOk = true := by
  rcases getOrCreateDocument_cases E Z s d r f with
    ⟨e, -, hg⟩ | ⟨hn, hm, ⟨err, hrec, -⟩ | ⟨x, -, hg⟩⟩ | ⟨-, -, hg⟩
  · rw [hg]
    rfl
  · obtain ⟨y, hy, -⟩ := recoverDocument_ok E Z h.readable (h.gone hn hm)
    cases hrec.symm.trans hy
  · rw [hg]
    rfl
  · rw [hg]
    rfl

theorem not_reopens (hr : s.registry d = none) (hm : (s.repo.metadata d).isSome)
    (hs : ¬ Stored s.repo d) (r f : String) : (getOrCreateDocument E Z s d r f).1.isOk = false := by
  rcases getOrCreateDocument_cases E Z s d r f with
    ⟨e, he, -⟩ | ⟨-, -, ⟨err, -, hg⟩ | ⟨x, hrec, -⟩⟩ | ⟨-, hm', -⟩
  · cases hr.symm.trans he
  · rw [hg]
    rfl
  · cases (recoverDocument_none E Z hs).symm.trans hrec
  · rw [hm'] at hm
    cases hm

/-! ## calls -/

variable {e : DocumentEntry}

theorem Known.edited {u : Bytes} {o : Finset Op} (ops : Finset Op) (h : Known E Z s x) (he : s.registry x = some e)
    (ho : E.decode u = some o) : Known E Z (edited s x e u ops) x := by
  have hup := edited_updates s x e u ops
  have hv := (h.live e he).1
  have htail : ⟨newID "up" s.nextID, x, u, e.version + 1⟩ ∈ tail (Collab.edited s x e u ops).repo x := by
    refine mem_tail.mpr ⟨by rw [hup]; simp, ?_⟩
    exact Nat.lt_succ_of_le hv
  refine ⟨h.readable.edited E Z s e ops ho, h.positive, fun e' he' => ?_, fun hn => ?_, fun hm => ?_⟩
  · have : e.markEdited = e' := by simpa [Collab.edited] using he'
    subst this
    exact ⟨Nat.le_succ_of_le hv, .inl ⟨Nat.succ_pos _, .inr (ne_nil_of_mem htail)⟩⟩
  · simp [Collab.edited] at hn
  · rw [(h.fresh hm).1] at he
    cases he

theorem Known.saved (h : Known E Z s x) (he : s.registry x = some e) (hst : e.state = .active ∨ e.state = .dirty) :
    Known E Z (saved E Z cfg s x e) x := by
  have hpos : 0 < e.version := by
    rcases (h.live e he).2 with ⟨hp, -⟩ | ⟨-, -, hi, -⟩
    · exact hp
    · rw [hi] at hst
      rcases hst with h | h <;> cases h
  have hstored : Stored (Collab.saved E Z cfg s x e).repo x := .inl (saved_ne_nil E Z cfg s x e)
  refine ⟨h.readable.saved E Z cfg s e, fun t ht => ?_, fun e' he' => ?_, fun _ _ => hstored, fun hm => ?_⟩
  · rw [saved_snapshots] at ht
    rcases mem_append.mp (mem_of_mem_drop ht) with ht | ht
    · exact h.positive t ht
    · rw [mem_singleton.mp ht]
      exact hpos
  · have : { e.recordSnapshot (captured E Z cfg s x e) with state := .persisted } = e' := by
      simpa [Collab.saved] using he'
    subst this
    refine ⟨?_, .inl ⟨hpos, hstored⟩⟩
    rw [saved_snapshots, kept_lastVersion cfg.snapMgr_retention_pos, lastVersion_snoc]
    exact Nat.le_refl _
  · rw [saved_metadata] at hm
    rw [(h.fresh hm).1] at he
    cases he

theorem Known.saved_other (h : Known E Z s d) (hx : d ≠ x) : Known E Z (Collab.saved E Z cfg s x e) d :=
  h.frame (saved_snapshots_other E Z cfg s e hx) (saved_updates_other E Z cfg s e hx)
    (by rw [saved_metadata]) (update_of_ne hx ..)

theorem Known.saveSnapshot (h : ∀ d, Known E Z s d) : ∀ d, Known E Z (saveSnapshot E Z cfg s x).2 d := by
  intro d
  rcases saveSnapshot_cases E Z cfg s x with ⟨err, hs, -⟩ | ⟨e, he, hst, hs⟩
  · rw [hs]
    exact h d
  rw [hs]
  by_cases hx : d = x
  · subst hx
    exact (h d).saved he hst
  · exact (h d).saved_other hx

theorem Known.applyIncrementalUpdate {u : Bytes} (h : ∀ d, Known E Z s d) :
    ∀ d, Known E Z (applyIncrementalUpdate E Z cfg s x u).2 d := by
  rcases applyIncrementalUpdate_cases E Z cfg s x u with ⟨err, hs⟩ | ⟨e, o, he, ho, hs⟩
  · rw [hs]
    exact h
  have hed : ∀ d, Known E Z (Collab.edited s x e u (s.ops e.doc ∪ o)) d := by
    intro d
    by_cases hx : d = x
    · subst hx
      exact (h d).edited _ he ho
    · exact (h d).frame rfl (update_of_ne hx ..) rfl (update_of_ne hx ..)
  rcases hs with hs | hs
  · rw [hs]
    exact hed
  · rw [hs]
    exact Known.saveSnapshot hed

theorem Known.unloaded (h : Known E Z s d) (hst : d = x → Stored s.repo d) : Known E Z (unloaded s x e) d := by
  by_cases hx : d = x
  · have hn : (Collab.unloaded s x e).registry d = none := by
      rw [hx]
      exact update_self ..
    refine ⟨⟨h.readable.snaps, h.readable.log⟩, h.positive, fun e' he' => ?_, fun _ _ => hst hx,
      fun hm => ⟨hn, (h.fresh hm).2⟩⟩
    cases hn.symm.trans he'
  · exact h.frame rfl rfl rfl (update_of_ne hx ..)

theorem Known.stored_of_pos (h : Known E Z s d) (he : s.registry d = some e) (hv : 0 < e.version) :
    Stored s.repo d := by
  rcases (h.live e he).2 with ⟨-, hs⟩ | ⟨h0, -⟩
  · exact hs
  · omega

theorem Known.archiveDocument (h : ∀ d, Known E Z s d) (hv : ∀ e, s.registry x = some e → 0 < e.version) :
    ∀ d, Known E Z (archiveDocument E Z cfg s x).2 d := by
  intro d
  rcases archiveDocument_cases E Z cfg s x with ⟨err, hs⟩ | ⟨e, he, ⟨-, hs⟩ | ⟨-, hst, hs⟩⟩
  · rw [hs]
    exact h d
  · rw [hs]
    refine (h d).unloaded fun hx => ?_
    subst hx
    exact (h d).stored_of_pos he (hv e he)
  · rw [hs]
    by_cases hx : d = x
    · subst hx
      exact ((h d).saved he hst).unloaded fun _ => .inl (saved_ne_nil E Z cfg s d e)
    · exact ((h d).saved_other hx).unloaded fun hx' => absurd hx' hx

theorem Known.opened_other {ops : Finset Op} (h : Known E Z s d) (hx : d ≠ x) : Known E Z (opened s x e ops) d :=
  h.frame rfl rfl rfl (update_of_ne hx ..)

theorem Known.recovered_pos (h : Known E Z s d) {r : Recovered Op} (hst : Stored s.repo d)
    (hl : lastVersion (s.repo.snapshots d) ≤ r.version)
    (ht : ∀ u ∈ tail s.repo d, u.version ≤ r.version) : 0 < r.version := by
  rcases hst with hs | hs
  · obtain ⟨l, hlast⟩ : ∃ l, (s.repo.snapshots d).getLast? = some l :=
      ⟨_, getLast?_eq_some_getLast hs⟩
    have hpos := h.positive l (mem_of_getLast? hlast)
    rw [lastVersion, hlast] at hl
    exact Nat.lt_of_lt_of_le hpos hl
  · obtain ⟨u, hu⟩ := exists_mem_of_ne_nil _ hs
    have := (mem_tail.mp hu).2
    have := ht u hu
    omega

theorem Known.getOrCreateDocument {r f : String} (h : ∀ d, Known E Z s d) :
    ∀ d, Known E Z (getOrCreateDocument E Z s x r f).2 d := by
  intro d
  rcases getOrCreateDocument_cases E Z s x r f with
    ⟨e, -, hs⟩ | ⟨hn, hm, ⟨err, -, hs⟩ | ⟨y, hrec, hs⟩⟩ | ⟨hn, hm, hs⟩
  · rw [hs]
    exact h d
  · rw [hs]
    exact h d
  · rw [hs]
    by_cases hx : d = x
    · subst hx
      have hst := (h d).gone hn hm
      obtain ⟨y', hrec', -, hl, ht⟩ := recoverDocument_ok E Z (h d).readable hst
      cases hrec.symm.trans hrec'
      refine ⟨⟨(h d).readable.snaps, (h d).readable.log⟩, (h d).positive, fun e he => ?_,
        fun _ _ => hst, fun hm' => ?_⟩
      · simp only [opened, update_self, Option.some.injEq] at he
        subst he
        exact ⟨hl, .inl ⟨(h d).recovered_pos hst hl ht, hst⟩⟩
      · rw [show s.repo.metadata d = none from hm'] at hm
        cases hm
    · exact (h d).opened_other hx
  · rw [hs]
    by_cases hx : d = x
    · subst hx
      obtain ⟨-, h2, h3⟩ := (h d).fresh hm
      have hno : ¬ Stored s.repo d := by
        unfold Stored tail Repository.getUpdates
        rw [h2, h3]
        simp
      refine ⟨⟨(h d).readable.snaps, (h d).readable.log⟩, (h d).positive, fun e he => ?_,
        fun hn' => ?_, fun hm' => ?_⟩
      · simp only [opened, update_self, Option.some.injEq] at he
        subst he
        refine ⟨?_, .inr ⟨rfl, hno, rfl, rfl⟩⟩
        show lastVersion (s.repo.snapshots d) ≤ 0
        rw [h2, lastVersion_nil]
      · simp [opened] at hn'
      · simp [opened, State.alloc, Repository.saveMetadata] at hm'
    · refine Known.opened_other ?_ hx
      exact (h d).frame rfl rfl (update_of_ne hx ..) rfl

theorem Known.deleteDocument (h : ∀ d, Known E Z s d) : ∀ d, Known E Z (deleteDocument s x).2 d := by
  intro d
  have hreg := deleteDocument_registry s x d
  have hrepo := deleteDocument_repo s x
  by_cases hx : d = x
  · subst hx
    refine ⟨⟨?_, ?_⟩, ?_, ?_, ?_, ?_⟩
    all_goals simp [hreg, hrepo, Repository.deleteDocument]
  · rw [if_neg hx] at hreg
    refine (h d).frame ?_ ?_ ?_ hreg <;> simp [hrepo, Repository.deleteDocument, update_of_ne hx]

/-! ## runs -/

variable {h : History Op}

/-- **An edited step keeps the invariant.** -/
theorem known_step {h' : History Op} {ev : Event} (hi : ∀ d, Known E Z h.state d) (hg : Edited h ev)
    (hs : h.step E Z cfg ev = some h') : ∀ d, Known E Z h'.state d := by
  cases ev with
  | restart =>
    cases hs
    intro d
    refine ⟨⟨(hi d).readable.snaps, (hi d).readable.log⟩, (hi d).positive, nofun, fun _ hm => ?_,
      fun hm => ⟨rfl, ((hi d).fresh hm).2⟩⟩
    cases he : h.state.registry d with
    | none => exact (hi d).gone he hm
    | some e => exact (hi d).stored_of_pos he (hg d e he)
  | call c =>
    cases hs
    cases c with
    | getOrCreate x r f => exact Known.getOrCreateDocument hi
    | apply x u => exact Known.applyIncrementalUpdate hi
    | save x => exact Known.saveSnapshot hi
    | archive x => exact Known.archiveDocument hi hg
    | delete x => exact Known.deleteDocument hi

theorem Known.unedited (h : Known E Z s d) (he : s.registry d = some e) (hv : ¬ 0 < e.version) :
    (s.repo.metadata d).isSome ∧ ¬ Stored s.repo d ∧ e.state = .initialized ∧ e.isDirty = false := by
  have hm : (s.repo.metadata d).isSome := by
    cases hm : s.repo.metadata d with
    | some m => rfl
    | none => cases (h.fresh hm).1.symm.trans he
  rcases (h.live e he).2 with ⟨hp, -⟩ | ⟨-, hs⟩
  · exact absurd hp hv
  · exact ⟨hm, hs⟩

/-- **Any other step leaves a document that cannot be opened again.** -/
theorem unedited_step {h' : History Op} {ev : Event} (hi : ∀ d, Known E Z h.state d) (hg : ¬ Edited h ev)
    (hs : h.step E Z cfg ev = some h') : ¬ Reopens E Z h' := by
  intro hre
  cases ev with
  | restart =>
    cases hs
    simp only [Edited, not_forall] at hg
    obtain ⟨d, e, he, hv⟩ := hg
    obtain ⟨hm, hst, -⟩ := (hi d).unedited he hv
    exact Bool.noConfusion ((hre d "" "").symm.trans (not_reopens (s := restart h.state) rfl hm hst "" ""))
  | call c =>
    cases c with
    | archive d =>
      cases hs
      simp only [Edited, not_forall] at hg
      obtain ⟨e, he, hv⟩ := hg
      obtain ⟨hm, hst, hini, hcl⟩ := (hi d).unedited he hv
      have harch := archiveDocument_clean E Z cfg he hcl (by rw [hini]; rfl)
      have hre := hre d "" ""
      simp only [State.call, harch] at hre
      exact Bool.noConfusion (hre.symm.trans (not_reopens (s := unloaded h.state d e) (update_self ..) hm hst "" ""))
    | _ => exact hg trivial

theorem reopen_from {cs : List Event} (hi : ∀ d, Known E Z h.state d) :
    (∀ pre h', pre <+: cs → run (step E Z cfg) h pre = some h' → Reopens E Z h') ↔
      Along (step E Z cfg) Edited h cs := by
  have hhere : Reopens E Z h := fun d r f => (hi d).reopens r f
  induction cs generalizing h with
  | nil =>
    refine ⟨fun _ => trivial, fun _ pre h' hp hr => ?_⟩
    rw [prefix_nil] at hp
    subst hp
    cases hr
    exact hhere
  | cons c cs ih =>
    obtain ⟨h2, hs⟩ : ∃ h2, h.step E Z cfg c = some h2 := by
      cases c <;> exact ⟨_, rfl⟩
    constructor
    · intro hall
      have hg : Edited h c := by
        by_contra hg
        refine unedited_step hi hg hs (hall [c] h2 ⟨cs, rfl⟩ ?_)
        rw [run_cons, hs]
        rfl
      have hi2 := known_step hi hg hs
      refine along_cons hg hs ((ih hi2 fun d r f => (hi2 d).reopens r f).mp ?_)
      intro pre h' hp hr
      refine hall (c :: pre) h' (cons_prefix_cons.mpr ⟨rfl, hp⟩) ?_
      rw [run_cons, hs]
      exact hr
    · rintro ⟨hg, hrest⟩ pre h' hp hr
      have hi2 := known_step hi hg hs
      cases pre with
      | nil =>
        cases hr
        exact hhere
      | cons c' pre =>
        obtain ⟨rfl, hpre⟩ := cons_prefix_cons.mp hp
        rw [run_cons, hs] at hr
        exact (ih hi2 fun d r f => (hi2 d).reopens r f).mpr (hrest h2 hs) pre h' hpre hr

end

/-- **Every document can be opened at every point of a run of calls exactly when no document is
unloaded before its first edit.** -/
theorem reopen_iff {Op : Type} [DecidableEq Op] (E : Engine Op) (Z : Gzip) (cfg : Config) (cs : List Event) :
    (∀ pre h, pre <+: cs → run (step E Z cfg) (init Op) pre = some h → Reopens E Z h) ↔
      Along (step E Z cfg) Edited (init Op) cs :=
  reopen_from (known_init E Z)

/-- the events of a document that is created and then unloaded by the given event -/
def createThen (ev : Event) : List Event := [.call (.getOrCreate "d" "room" "file"), ev]

/-- **A document that was never edited cannot be opened again** after an archival or a restart. -/
theorem unedited_document_lost : [Event.call (.archive "d"), .restart].map (fun ev =>
      (run (step Engine.bits Gzip.stored Config.default) (init (Fin 4)) (createThen ev)).map fun h =>
          (getOrCreateDocument Engine.bits Gzip.stored h.state "d" "room" "file").1)
    = [some (.error .documentNotFound), some (.error .documentNotFound)] := by
  decide +kernel

end Collab
