import Mathlib.Data.List.Basic
import Mathlib.Tactic.Common

/-!
# Cache: glob patterns

The matcher of the Redis emulator (`globMatch`, `matchClass`): a loop over the pattern and the name
that goes back to the last star when it is stuck.  An index into the pattern or the name is the rest
from it on, a character stands for one byte.

* `globLoop_total`  **the fuel is enough**;
* `globMatch_plain`  **a pattern that is a plain text followed by a star matches what starts with the text**.
-/

namespace Cache

open List

/-! ## matcher -/

/-- the pattern after the closing bracket, and whether the character is in the class; `none` without a bracket -/
def classLoop (c : Char) : List Char → Bool → Option (List Char × Bool)
  | [], _ => none
  | ']' :: rest, m => some (rest, m)
  | '\\' :: d :: rest, m => classLoop c rest (m || d == c)
  | lo :: '-' :: hi :: rest, m =>
    if hi ≠ ']' then classLoop c rest (m || (lo ≤ c && c ≤ hi))
    else classLoop c ('-' :: hi :: rest) (m || lo == c)
  | d :: rest, m => classLoop c rest (m || d == c)

def matchClass (pat : List Char) (c : Char) : List Char × Bool :=
  let (negate, body) := match pat with
    | '^' :: rest => (true, rest)
    | _ => (false, pat)
  match classLoop c body false with
  | none => (pat, '[' == c)
  | some (rest, matched) => (rest, matched != negate)

def advance (c : Char) : List Char → Option (List Char)
  | '?' :: p => some p
  | '[' :: p =>
    match matchClass p c with
    | (rest, true) => some rest
    | (_, false) => none
  | '\\' :: d :: p => if d = c then some p else none
  | '\\' :: [] => none
  | d :: p => if d = c then some p else none
  | [] => none

/-- the loop of `globMatch`; `star` is what follows the last star and where it was met -/
def globLoop : Nat → List Char → List Char → Option (List Char × List Char) → Option Bool
  | 0, _, _, _ => none
  | _ + 1, pat, [], _ => some (pat.all (· == '*'))
  | n + 1, '*' :: p, s, _ => globLoop n p s (some (p, s))
  | n + 1, pat, c :: s, star =>
    match advance c pat with
    | some p => globLoop n p s star
    | none =>
      match star with
      | some (p, _ :: t) => globLoop n p t (some (p, t))
      | _ => some false

variable (pat s : List Char)

def globFuel : Nat := (s.length + 2) * ((s.length + 1) * (pat.length + 1))

def globMatch : Bool := (globLoop (globFuel pat s) pat s none).getD false

/-! ## termination -/

theorem classLoop_suffix {c : Char} {l rest : List Char} {m b : Bool} (h : classLoop c l m = some (rest, b)) :
    rest <:+ l := by
  fun_induction classLoop c l m with
  | case1 => cases h
  | case2 =>
    cases h
    exact suffix_cons ..
  | case3 d rest m ih => exact (ih h).trans ⟨[_, d], rfl⟩
  | case4 lo hi rest m _ _ _ ih => exact (ih h).trans ⟨[lo, _, hi], rfl⟩
  | case5 _ _ _ _ _ _ _ ih => exact (ih h).trans (suffix_cons ..)
  | case6 _ _ _ _ _ _ ih => exact (ih h).trans (suffix_cons ..)

theorem matchClass_suffix (p : List Char) (c : Char) : (matchClass p c).1 <:+ p := by
  fun_cases matchClass p c with
  | case1 => exact suffix_rfl
  | case2 negate body hbody rest matched hrest =>
    refine (classLoop_suffix hrest).trans ?_
    split at hbody
    · cases hbody
      exact suffix_cons ..
    · cases hbody
      exact suffix_rfl

theorem advance_length {c : Char} {pat p : List Char} (h : advance c pat = some p) : p.length < pat.length := by
  revert h
  fun_cases advance c pat with
  | case1 | case7 =>
    rintro ⟨⟩
    exact Nat.lt_succ_self _
  | case2 q rest hm =>
    rintro ⟨⟩
    have hle := (matchClass_suffix q c).length_le
    rw [hm] at hle
    exact Nat.lt_succ_of_le hle
  | case4 =>
    rintro ⟨⟩
    exact Nat.lt_add_of_pos_right (Nat.zero_lt_two)
  | _ => rintro ⟨⟩

def retries (S : Nat) : Option (List Char × List Char) → Nat
  | none => S + 1
  | some (_, t) => t.length

/-- the loop has not used up what the star remembers -/
def StarOk (P S : Nat) (s : List Char) : Option (List Char × List Char) → Prop
  | none => s.length ≤ S
  | some (p, t) => p.length ≤ P ∧ s.length ≤ t.length ∧ t.length ≤ S

theorem StarOk.le_retries {P S : Nat} {s : List Char} {star : Option (List Char × List Char)}
    (h : StarOk P S s star) : s.length ≤ retries S star ∧ s.length ≤ S := by
  cases star with
  | none => exact ⟨Nat.le_succ_of_le h, h⟩
  | some x => exact ⟨h.2.1, Nat.le_trans h.2.1 h.2.2⟩

theorem globLoop_star (n : Nat) (p : List Char) (c : Char) (s : List Char) (star : Option (List Char × List Char)) :
    globLoop (n + 1) ('*' :: p) (c :: s) star = globLoop n p (c :: s) (some (p, c :: s)) := rfl

theorem globLoop_advance {pat : List Char} (hpat : ∀ p, pat ≠ '*' :: p) (n : Nat) (c : Char) (s : List Char)
    (star : Option (List Char × List Char)) :
    globLoop (n + 1) pat (c :: s) star =
      match advance c pat with
      | some p => globLoop n p s star
      | none =>
        match star with
        | some (p, _ :: t) => globLoop n p t (some (p, t))
        | _ => some false := by
  conv_lhs => unfold globLoop
  split <;> simp_all

theorem digit_lt {a b p q P : Nat} (h : a < b) (hp : p ≤ P) : a * (P + 1) + p < b * (P + 1) + q := by
  have hmul := Nat.mul_le_mul_right (P + 1) h
  rw [Nat.succ_mul] at hmul
  omega

/-- **The loop ends** within its measure: the retries that are left, the rest of the name, the rest of
the pattern, in this order. -/
theorem globLoop_some {P S : Nat} (n : Nat) (pat s : List Char) (star : Option (List Char × List Char))
    (hp : pat.length ≤ P) (hs : StarOk P S s star)
    (hn : (retries S star * (S + 1) + s.length) * (P + 1) + pat.length < n) : ∃ b, globLoop n pat s star = some b := by
  fun_induction globLoop n pat s star with
  | case1 => exact absurd hn (Nat.not_lt_zero _)
  | case2 => exact ⟨_, rfl⟩
  | case3 n p s star hne ih =>
    obtain ⟨hle, hS⟩ := hs.le_retries
    have hp' : p.length ≤ P := Nat.le_of_succ_le hp
    refine ih hp' ⟨hp', Nat.le_refl _, hS⟩ (Nat.lt_of_le_of_lt ?_ (Nat.lt_of_succ_lt_succ hn))
    exact Nat.add_le_add_right (Nat.mul_le_mul_right _ (Nat.add_le_add_right (Nat.mul_le_mul_right _ hle) _)) _
  | case4 n pat c s star hpat p hadv ih =>
    have hp' : p.length ≤ P := Nat.le_trans (Nat.le_of_lt (advance_length hadv)) hp
    refine ih hp' ?_ (Nat.lt_of_lt_of_le (digit_lt (Nat.lt_succ_self _) hp') (Nat.le_of_lt_succ hn))
    cases star with
    | none => exact Nat.le_of_succ_le hs
    | some x => exact ⟨hs.1, Nat.le_of_succ_le hs.2.1, hs.2.2⟩
  | case5 n pat c s hpat hadv p d t ih =>
    obtain ⟨hpP, -, ht⟩ := hs
    have htS : t.length ≤ S := Nat.le_of_succ_le ht
    refine ih hpP ⟨hpP, Nat.le_refl _, htS⟩ ?_
    -- one retry is worth a whole pass over the name and the pattern
    exact Nat.lt_of_lt_of_le (digit_lt (digit_lt (Nat.lt_succ_self _) htS) hpP) (Nat.le_of_lt_succ hn)
  | case6 => exact ⟨_, rfl⟩

/-- **The fuel is enough.** -/
theorem globLoop_total : ∃ b, globLoop (globFuel pat s) pat s none = some b := by
  refine globLoop_some (P := pat.length) (S := s.length) _ pat s none (Nat.le_refl _) (Nat.le_refl _) ?_
  unfold globFuel
  rw [← Nat.mul_assoc]
  exact digit_lt (q := 0) (digit_lt (q := 0) (Nat.lt_succ_self _) (Nat.le_refl _)) (Nat.le_refl _)

/-! ## plain patterns -/

def isMeta (c : Char) : Bool := c == '*' || c == '?' || c == '[' || c == '\\'

def Plain (p : List Char) : Prop := ∀ c ∈ p, isMeta c = false

instance (p : List Char) : Decidable (Plain p) := decidableBAll (isMeta · = false) p

theorem advance_plain {c d : Char} (hd : isMeta d = false) (p : List Char) :
    advance c (d :: p) = if d = c then some p else none := by
  simp only [isMeta, Bool.or_eq_false_iff, beq_eq_false_iff_ne, ne_eq] at hd
  obtain ⟨⟨⟨-, hq⟩, hb⟩, he⟩ := hd
  unfold advance
  split
  · rename_i hcons
    cases hcons
    exact absurd rfl hq
  · rename_i hcons
    cases hcons
    exact absurd rfl hb
  · rename_i hcons
    cases hcons
    exact absurd rfl he
  · rename_i hcons
    cases hcons
    exact absurd rfl he
  · rename_i hcons
    cases hcons
    rfl
  · rename_i hcons
    cases hcons

theorem globLoop_rest (n : Nat) (s : List Char) (hn : s.length < n) :
    globLoop n [] s (some ([], s)) = some true := by
  induction s generalizing n with
  | nil =>
    obtain ⟨n, rfl⟩ := Nat.exists_eq_succ_of_ne_zero (by omega : n ≠ 0)
    rfl
  | cons c s ih =>
    obtain ⟨n, rfl⟩ := Nat.exists_eq_succ_of_ne_zero (by omega : n ≠ 0)
    exact ih n (Nat.lt_of_succ_lt_succ hn)

theorem globLoop_plain (n : Nat) (p s : List Char) (hp : Plain p) (hn : p.length + s.length + 2 ≤ n) :
    globLoop n (p ++ ['*']) s none = some (p.isPrefixOf s) := by
  induction p generalizing n s with
  | nil =>
    obtain ⟨n, rfl⟩ := Nat.exists_eq_succ_of_ne_zero (by omega : n ≠ 0)
    cases s with
    | nil => rfl
    | cons c s =>
      rw [nil_append, globLoop_star, globLoop_rest n _ (by simp only [length_cons] at *; omega)]
      rfl
  | cons d p ih =>
    obtain ⟨n, rfl⟩ := Nat.exists_eq_succ_of_ne_zero (by omega : n ≠ 0)
    have hd : isMeta d = false := hp d (mem_cons_self ..)
    have hstar : d ≠ '*' := by
      rintro rfl
      cases hd
    cases s with
    | nil =>
      show some ((d == '*') && _) = some false
      rw [beq_eq_false_iff_ne.mpr hstar, Bool.false_and]
    | cons c s =>
      rw [cons_append, globLoop_advance fun q hq => hstar (cons.inj hq).1, advance_plain hd, isPrefixOf]
      by_cases hdc : d = c
      · rw [if_pos hdc, beq_iff_eq.mpr hdc, Bool.true_and]
        refine ih n s (fun x hx => hp x (mem_cons_of_mem _ hx)) ?_
        simp only [length_cons] at hn
        omega
      · rw [if_neg hdc, beq_eq_false_iff_ne.mpr hdc, Bool.false_and]

/-- **A plain text followed by a star matches what starts with the text.** -/
theorem globMatch_plain {p : List Char} (hp : Plain p) (s : List Char) :
    globMatch (p ++ ['*']) s = p.isPrefixOf s := by
  unfold globMatch
  rw [globLoop_plain _ p s hp]
  · rfl
  unfold globFuel
  rw [length_append, length_singleton]
  have h1 : (s.length + 1) * (p.length + 1 + 1) = s.length * (p.length + 2) + (p.length + 2) :=
    Nat.succ_mul ..
  have h2 : s.length * 2 ≤ s.length * (p.length + 2) := Nat.mul_le_mul_left _ (by omega)
  have h3 : 2 * ((s.length + 1) * (p.length + 1 + 1)) ≤
      (s.length + 2) * ((s.length + 1) * (p.length + 1 + 1)) := Nat.mul_le_mul_right _ (by omega)
  omega

example : globMatch "a[0-9]*?".toList "a7bc".toList = true := by decide

end Cache
