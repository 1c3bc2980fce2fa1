import Cpip.Lib.Linear
import Cpip.Cache.Sessions

/-!
# Cache: concurrent updates of a session

Any number of `Update`, `Renew` and `Invalidate` calls on one session, whose accesses interleave.

* `updates_linear`  **the document has the mutations of exactly the calls that returned a session**.
-/

namespace Cache.Sessions

open Expiry Pool Emulator Code

namespace Updates

inductive Call where
  | update (mutate : Mutation)
  | renew (ttl : Int)
  | invalidate

inductive Reply where
  | session (s : Session)
  | failed (err : Err)
  | done

def reply : Except Err Session → Reply
  | .ok s => .session s
  | .error err => .failed err

section
variable (S : Store) (id : String)

def body : Call → Op Reply
  | .update mutate => (update S id mutate maxCASRetry).bind fun r => .ret (reply r)
  | .renew ttl => (renew S id ttl).bind fun r => .ret (reply r)
  | .invalidate => (invalidate S id).bind fun _ => .ret .done

def Call.mutation : Call → Option Mutation
  | .update mutate => some mutate
  | .renew ttl => some (renewal S ttl)
  | .invalidate => none

abbrev Th := Thread Call Cmd Cmd.Ans Reply

abbrev calls : Prog Call World Th Env := prog exec (body S id)

def Succeeded (t : Th) : Prop := ∃ s, t.result = some (.session s)

def Mutates (t : Th) (d d' : Session) : Prop :=
  ∃ mutate ∈ t.what.mutation S, ∃ now s, mutate now d = .ok s ∧ d' = s.bump

/-! ## what the code does to the key -/

/-- the code writes the session only by a compare-and-set of the mutated document, after which it returns it -/
def Honest (mutation : Option Mutation) : Op Reply → Prop
  | .ret r => ∀ s, r ≠ .session s
  | .call .clock k => ∀ now, Honest mutation (k now)
  | .call (.get key) k => key = S.keys.session id ∧ ∀ raw, Honest mutation (k raw)
  | .call (.del key) k => key = S.keys.session id ∧ Honest mutation (k ())
  | .call (.sRem key _ _) k => key ≠ S.keys.session id ∧ Honest mutation (k ())
  | .call (.compareAndSet key expected newValue _) k =>
    key = S.keys.session id ∧
    (∃ mutate ∈ mutation, ∃ d now s, S.codec.unmarshal expected = some d ∧ mutate now d = .ok s ∧
      S.codec.marshal s.bump = some newValue ∧ k true = .ret (.session s.bump)) ∧
    Honest mutation (k false)
  | .call _ _ => False

end

section
variable {S : Store} {id : String} {mutation : Option Mutation}

theorem honest_getRaw {f : Except Err (String × Session) → Op Reply}
    (herr : ∀ err, Honest S id mutation (f (.error err)))
    (hok : ∀ raw d, S.codec.unmarshal raw = some d → Honest S id mutation (f (.ok (raw, d)))) :
    Honest S id mutation ((getRaw S id).bind f) := by
  refine ⟨rfl, fun r => ?_⟩
  cases r with
  | none => exact herr _
  | some raw =>
    dsimp only [Code.bind]
    split
    · exact herr _
    · rename_i d hd
      exact hok raw d hd

theorem honest_invalidate {f : Unit → Op Reply} (hf : Honest S id mutation (f ())) :
    Honest S id mutation ((invalidate S id).bind f) := by
  show Honest S id mutation (Code.bind (Code.bind (getRaw S id) _) f)
  rw [bind_assoc]
  refine honest_getRaw (fun err => ⟨rfl, hf⟩) fun raw d _ => ?_
  dsimp only
  split
  · exact ⟨Ne.symm (session_ne_userSessions _ _ _), rfl, hf⟩
  · exact ⟨rfl, hf⟩

theorem honest_update {mutate : Mutation} (hm : mutation = some mutate) (n : Nat) :
    Honest S id mutation ((update S id mutate n).bind fun r => .ret (reply r)) := by
  induction n with
  | zero => exact fun s h => by cases h
  | succ n ih =>
    show Honest S id mutation (Code.bind (Code.bind (getRaw S id) _) _)
    rw [bind_assoc]
    refine honest_getRaw (fun err s h => by cases h) fun raw d hd => ?_
    intro now
    show Honest S id mutation (Code.bind (if d.expired now = true then _ else _) _)
    split
    · show Honest S id mutation (Code.bind (Code.bind (invalidate S id) _) _)
      rw [bind_assoc]
      exact honest_invalidate fun s h => by cases h
    · intro now
      dsimp only [Code.bind]
      split
      · exact fun s h => by cases h
      rename_i s hs
      split
      · exact fun s h => by cases h
      · rename_i newRaw hnew
        exact fun now => ⟨rfl, ⟨mutate, hm, d, _, s, hd, hs, hnew, rfl⟩, ih⟩

theorem honest_body (call : Call) : Honest S id (call.mutation S) (body S id call) := by
  cases call with
  | update mutate | renew ttl => exact honest_update rfl maxCASRetry
  | invalidate => exact honest_invalidate fun s h => by cases h

variable {t : Th}

theorem Honest.not_succeeded (h : Honest S id mutation t.code) : ¬ Succeeded t := by
  rintro ⟨s, hs⟩
  unfold Thread.result at hs
  split at hs
  · rename_i r hret
    rw [hret] at h
    cases hs
    exact h s rfl
  · cases hs

theorem succeeded_of_code {s : Session} (h : t.code = .ret (.session s)) : Succeeded t := by
  refine ⟨s, ?_⟩
  unfold Thread.result
  rw [h]

/-- what is under the key after an access: what was there, nothing, or the mutated document -/
inductive Wrote (S : Store) (id : String) (t t' : Th) (w m : World) : Prop
  | none (h : ∀ x, m.redis.data.lookup (S.keys.session id) = some x →
      w.redis.data.lookup (S.keys.session id) = some x) (hcode : Honest S id (t.what.mutation S) t'.code)
  | mutated {raw newRaw : String} {x x' : Option Int} {d s : Session} {now : Int} {mutate : Mutation}
      (hold : w.redis.data.lookup (S.keys.session id) = some ⟨.str raw, x⟩)
      (hnew : m.redis.data.lookup (S.keys.session id) = some ⟨.str newRaw, x'⟩)
      (hread : S.codec.unmarshal raw = some d) (hm : t.what.mutation S = some mutate)
      (hs : mutate now d = .ok s) (hwrite : S.codec.marshal s.bump = some newRaw)
      (hcode : t'.code = .ret (.session s.bump))

variable {t' : Th} {w m : World}

/-- **What a step of a call does to the key of the session.** -/
theorem wrote_step {e : Env} (hL : Honest S id (t.what.mutation S) t.code)
    (h : (calls S id).step t w e = some (t', m)) : t'.what = t.what ∧ Wrote S id t t' w m := by
  obtain ⟨c, k, a, hcode, he, rfl⟩ := prog_step h
  rw [hcode] at hL
  refine ⟨rfl, ?_⟩
  cases c with
  | clock =>
    cases he
    exact .none (fun x hx => hx) (hL _)
  | get key =>
    cases he
    exact .none (fun x hx => lookup_touch _ hx) (hL.2 _)
  | del key =>
    obtain ⟨rfl, hk⟩ := hL
    cases he
    exact .none (fun x hx => by cases lookup_del_self.symm.trans hx) hk
  | sRem key member dangling =>
    obtain ⟨hne, hk⟩ := hL
    cases he
    exact .none (fun x hx => lookup_sRem_ne (Ne.symm hne) _ ▸ hx) hk
  | compareAndSet key expected newValue ttl =>
    obtain ⟨rfl, ⟨mutate, hm, d, now, s, hread, hs, hwrite, htrue⟩, hfalse⟩ := hL
    have hne : expected ≠ "" := by
      rintro rfl
      cases S.codec.empty.symm.trans hread
    simp only [exec] at he
    rcases compareAndSet_cases newValue ttl hne with ⟨htext, hcas⟩ | ⟨-, hcas⟩
    · rw [hcas] at he
      cases he
      obtain ⟨x, hx⟩ := lookup_of_text htext
      exact .mutated hx (lookup_put_self _ _) hread hm hs hwrite htrue
    · rw [hcas] at he
      cases he
      exact .none (fun x hx => lookup_touch _ hx) hfalse
  | _ => exact hL.elim

/-- the call has returned a session, or its code is honest -/
def Sound (S : Store) (id : String) (t : Th) : Prop := Succeeded t ∨ Honest S id (t.what.mutation S) t.code

theorem Sound.honest {e : Env} (h : Sound S id t) (hs : (calls S id).step t w e = some (t', m)) :
    Honest S id (t.what.mutation S) t.code := by
  rcases h with ⟨s, hret⟩ | h
  · obtain ⟨c, k, a, hcode, -, -⟩ := prog_step hs
    unfold Thread.result at hret
    rw [hcode] at hret
    cases hret
  · exact h

theorem Wrote.sound (hwhat : t'.what = t.what) (h : Wrote S id t t' w m) : Sound S id t' := by
  cases h with
  | none _ hcode => exact .inr (hwhat ▸ hcode)
  | mutated _ _ _ _ _ _ hcode => exact .inl (succeeded_of_code hcode)

theorem Wrote.takes (hL : Honest S id (t.what.mutation S) t.code) (h : Wrote S id t t' w m) :
    Takes (doc S · id) Succeeded (Mutates S) t t' w m := by
  cases h with
  | none hsame hcode =>
    exact .quiet (fun d hd => doc_of_lookup hsame hd) (iff_of_false hcode.not_succeeded hL.not_succeeded)
  | mutated hold hnew hread hm hs hwrite hcode =>
    exact .effect hL.not_succeeded (succeeded_of_code hcode) (doc_eq_some.mpr ⟨_, _, hold, hread⟩)
      (doc_eq_some.mpr ⟨_, _, hnew, S.codec.round hwrite⟩) ⟨_, hm, _, _, hs, rfl⟩

theorem sound_next (sys : Sys World Th) (l : Act Call Env) (sys' : Sys World Th)
    (h : ∀ i t, sys.pool i = some t → Sound S id t) (hn : (calls S id).next sys l = some sys') :
    ∀ i t, sys'.pool i = some t → Sound S id t := by
  intro j u hu
  cases l with
  | spawn i call =>
    obtain ⟨-, rfl⟩ := next_spawn hn
    rcases update_cases hu with ⟨-, rfl⟩ | ⟨-, hu⟩
    · exact .inr (honest_body call)
    · exact h j u hu
  | step i e =>
    obtain ⟨t, t', m, hp, hs, rfl⟩ := next_step hn
    rcases update_cases hu with ⟨-, rfl⟩ | ⟨-, hu⟩
    · obtain ⟨hwhat, hwrote⟩ := wrote_step ((h i t hp).honest hs) hs
      exact hwrote.sound hwhat
    · exact h j u hu

def Absent (S : Store) (id : String) (w : World) : Prop := w.redis.data.lookup (S.keys.session id) = none

theorem absent_next (sys : Sys World Th) (l : Act Call Env) (sys' : Sys World Th)
    (h : (∀ i t, sys.pool i = some t → Sound S id t) ∧ Absent S id sys.shared)
    (hn : (calls S id).next sys l = some sys') :
    (∀ i t, sys'.pool i = some t → Sound S id t) ∧ Absent S id sys'.shared := by
  refine ⟨sound_next sys l sys' h.1 hn, ?_⟩
  cases l with
  | spawn i call =>
    obtain ⟨-, rfl⟩ := next_spawn hn
    exact h.2
  | step i e =>
    obtain ⟨t, t', m, hp, hs, rfl⟩ := next_step hn
    obtain ⟨-, hwrote⟩ := wrote_step ((h.1 i t hp).honest hs) hs
    cases hwrote with
    | none hsame _ =>
      cases hx : m.redis.data.lookup (S.keys.session id) with
      | none => exact hx
      | some x => cases h.2.symm.trans (hsame x hx)
    | mutated hold _ _ _ _ _ _ => cases h.2.symm.trans hold

/-- **Updates are not lost and do not bring a session back.** -/
theorem updates_linear {w : World} {d₀ : Session} (h0 : doc S w id = some d₀)
    {run : List (Act Call Env)} {sys : Sys World Th} (hr : Lts.run (calls S id).next (idle w) run = some sys) :
    (∀ d, doc S sys.shared id = some d → ∃ order : List Nat, order.Nodup ∧
      (∀ i, i ∈ order ↔ ∃ t, sys.pool i = some t ∧ Succeeded t) ∧
      Applied (fun i a b => ∃ t, sys.pool i = some t ∧ Mutates S t a b) d₀ order d ∧
      ((∀ i t, sys.pool i = some t → ∀ mutate ∈ t.what.mutation S, ∀ now a b, mutate now a = .ok b →
          b.version = a.version) →
        d.version = (· + 1)^[order.length] d₀.version)) ∧
    ∀ i t e post sys', sys.pool i = some t → t.next = some (.del (S.keys.session id)) →
      Lts.run (calls S id).next sys (.step i e :: post) = some sys' →
      sys'.shared.redis.data.lookup (S.keys.session id) = none := by
  have hsound : ∀ i t, sys.pool i = some t → Sound S id t :=
    Lts.run_inv_all (I := fun sys : Sys World Th => ∀ i t, sys.pool i = some t → Sound S id t)
      sound_next (fun i t ht => by cases ht) hr
  constructor
  · intro d hd
    have hlin : Linear (doc S · id) Succeeded (Mutates S) d₀ sys := by
      refine linear_run (L := Sound S id) (fun call => ⟨.inr (honest_body call), (honest_body call).not_succeeded⟩)
        (fun t w e t' m hL hs => ?_) h0 hr
      obtain ⟨hwhat, hwrote⟩ := wrote_step (hL.honest hs) hs
      refine ⟨hwrote.sound hwhat, hwrote.takes (hL.honest hs), fun a b hab => ?_⟩
      unfold Mutates
      rw [hwhat]
      exact hab
    obtain ⟨order, hnodup, hmem, happ⟩ := hlin d hd
    refine ⟨order, hnodup, hmem, happ, fun hkeep => ?_⟩
    refine Applied.count (f := Session.version) (g := (· + 1)) ?_ happ
    rintro i - a b ⟨t, ht, mutate, hm, now, s, hs, rfl⟩
    exact congrArg (· + 1) (hkeep i t ht mutate hm now a s hs)
  · intro i t e post sys' hp hnext hrun
    obtain ⟨sys₁, hstep, hpost⟩ := Lts.run_cons_eq hrun
    have habsent : Absent S id sys₁.shared := by
      obtain ⟨t', t'', m, hp', hs, rfl⟩ := next_step hstep
      cases hp.symm.trans hp'
      obtain ⟨c, k, a, hcode, he, rfl⟩ := prog_step hs
      cases (next_of_code hcode).symm.trans hnext
      cases he
      exact lookup_del_self
    exact (Lts.run_inv_all absent_next ⟨sound_next sys _ sys₁ hsound hstep, habsent⟩ hpost).2

end

/-! ## two updates and a sign-out -/

def sess (version : Int64) (data : List String) : Session :=
  ⟨"s", "u", "", 0, 0, none, version, data.map fun k => (k, "v")⟩

def store : Store := ⟨⟨"cpip"⟩, tableCodec [sess 1 [], sess 2 ["k"], sess 2 ["l"], sess 3 ["k", "l"]], 60⟩

def signedIn : World where
  redis := ((({} : Emulator).set 0 "cpip:session:s" "x" 60).sAdd 0 "cpip:user:u:sessions" ["s"]).2
  made := ["cpip:session:s"]

def adds (k : String) : Mutation := fun _ s => .ok { s with data := s.data ++ [(k, "v")] }

def access (i : Nat) : Act Call Env := .step i ⟨1, "", []⟩

/-- both updates read the first document; the second one finds it replaced and reads again -/
def updateRun : List (Act Call Env) :=
  [.spawn 0 (.update (adds "k")), .spawn 1 (.update (adds "l")), access 0, access 1] ++
    List.replicate 4 (access 0) ++ List.replicate 9 (access 1) ++ [.spawn 2 .invalidate, access 2, access 2]

theorem updates_linear_updateRun : doc store signedIn "s" = some (sess 1 []) ∧
    ∃ sys ∈ Lts.run (calls store "s").next (idle signedIn) updateRun,
      doc store sys.shared "s" = some (sess 3 ["k", "l"]) ∧
      (∃ order : List Nat, order.Nodup ∧ (∀ i, i ∈ order ↔ ∃ t, sys.pool i = some t ∧ Succeeded t) ∧
        Applied (fun i a b => ∃ t, sys.pool i = some t ∧ Mutates store t a b) (sess 1 []) order
          (sess 3 ["k", "l"])) ∧
      ∃ sys' ∈ Lts.run (calls store "s").next sys [access 2],
        sys'.shared.redis.data.lookup "cpip:session:s" = none := by
  have h0 : doc store signedIn "s" = some (sess 1 []) := by decide +kernel
  have hrun : ∃ sys ∈ Lts.run (calls store "s").next (idle signedIn) updateRun,
      doc store sys.shared "s" = some (sess 3 ["k", "l"]) ∧
      (∃ t ∈ sys.pool 2, t.next = some (.del "cpip:session:s")) ∧
      (Lts.run (calls store "s").next sys [access 2]).isSome = true := by decide +kernel
  obtain ⟨sys, hr, hd, ⟨t, ht, hnext⟩, hend⟩ := hrun
  obtain ⟨sys', hr'⟩ := Option.isSome_iff_exists.mp hend
  obtain ⟨hlin, hgone⟩ := updates_linear h0 hr
  obtain ⟨order, hnodup, hmem, happ, -⟩ := hlin _ hd
  exact ⟨h0, sys, hr, hd, ⟨order, hnodup, hmem, happ⟩, sys', hr', hgone 2 t _ [] sys' ht hnext hr'⟩

end Updates

end Cache.Sessions
