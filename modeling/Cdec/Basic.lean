import Mathlib

/-!
# `Cdec.Basic` — word ids, and the numbers the programs compute with

`fast_align` and `filter-length.pl` compute in `double` and call `exp`, `log`,
`sqrt` and `pow`.  What is proved about them is a statement of exact real
arithmetic, so the model is written over any linearly ordered field `R` with
the four functions supplied by `CMath R`, and every theorem about a run is
stated at `R = ℝ` with the real functions.  Over a computable field the model
runs as written; the instance for `ℝ` is the one place where the model is not
computable, because the reals are not.
-/

namespace Cdec

/-- A word id of cdec's vocabulary `TD` (`typedef int WordID`). -/
abbrev WordID := Int

/-- The functions of `<cmath>` the programs call. -/
class CMath (R : Type) where
  exp : R → R
  log : R → R
  sqrt : R → R
  pow : R → R → R

/-- Exact real arithmetic. -/
noncomputable instance : CMath ℝ := ⟨Real.exp, Real.log, Real.sqrt, fun x y => x ^ y⟩

@[simp] theorem CMath.exp_real (x : ℝ) : CMath.exp x = Real.exp x := rfl
@[simp] theorem CMath.log_real (x : ℝ) : CMath.log x = Real.log x := rfl
@[simp] theorem CMath.sqrt_real (x : ℝ) : CMath.sqrt x = Real.sqrt x := rfl
@[simp] theorem CMath.pow_real (x y : ℝ) : CMath.pow x y = x ^ y := rfl

/-! ## Loops that may abort

`fast_align` and `filter-length.pl` loop over the lines of a file with a body
that may abort (`die`, or a message and `abort()`): a `List.foldlM` in
`Except`.  The incremental decoder's loops fault in `Except` too. -/

section Loops

variable {α β ε : Type} {f : α → β → Except ε α}

@[simp] theorem ok_bind {γ : Type} {a : α} {g : α → Except ε γ} : (Except.ok a : Except ε α) >>= g = g a :=
  rfl

@[simp] theorem error_bind {γ : Type} {e : ε} {g : α → Except ε γ} :
    (Except.error e : Except ε α) >>= g = .error e :=
  rfl

theorem bind_ok {γ : Type} {x : Except ε α} {g : α → Except ε γ} {r : γ} :
    x >>= g = .ok r ↔ ∃ a, x = .ok a ∧ g a = .ok r := by
  cases x <;> simp [bind, Except.bind]

theorem bind_error {γ : Type} {x : Except ε α} {g : α → Except ε γ} {e : ε} :
    x >>= g = .error e ↔ x = .error e ∨ ∃ a, x = .ok a ∧ g a = .error e := by
  cases x <;> simp [bind, Except.bind]

theorem map_error {γ : Type} {x : Except ε α} {g : α → γ} {e : ε} :
    g <$> x = .error e ↔ x = .error e := by
  cases x <;> simp [Functor.map, Except.map]

/-- A conditional completes when each branch does under its own condition. -/
theorem exists_ite_ok {c : Prop} [Decidable c] {x y : Except ε α} (hx : c → ∃ a, x = .ok a)
    (hy : ¬ c → ∃ a, y = .ok a) : ∃ a, (if c then x else y) = .ok a := by
  by_cases h : c
  · rw [if_pos h]; exact hx h
  · rw [if_neg h]; exact hy h

theorem foldlM_cons_ok {b : β} {l : List β} {a r : α} :
    (b :: l).foldlM f a = .ok r ↔ ∃ a', f a b = .ok a' ∧ l.foldlM f a' = .ok r := by
  rw [List.foldlM_cons, bind_ok]

/-- Every line of a loop that completes completes from some state. -/
theorem foldlM_ok_mem : ∀ (l : List β) (a r : α), l.foldlM f a = .ok r → ∀ b ∈ l, ∃ a a', f a b = .ok a'
  | [], _, _, _, _, hb => absurd hb (List.not_mem_nil _)
  | b :: l, a, r, h, b', hb' => by
    obtain ⟨a₁, hb, hl⟩ := foldlM_cons_ok.mp h
    rcases List.mem_cons.mp hb' with rfl | hb'
    · exact ⟨a, a₁, hb⟩
    · exact foldlM_ok_mem l a₁ r hl b' hb'

/-- A loop whose every line completes from every state completes. -/
theorem foldlM_ok : ∀ (l : List β) (a : α), (∀ b ∈ l, ∀ a, ∃ a', f a b = .ok a') →
    ∃ r, l.foldlM f a = .ok r
  | [], a, _ => ⟨a, rfl⟩
  | b :: l, a, h => by
    obtain ⟨a₁, hb⟩ := h b (List.mem_cons_self b l) a
    obtain ⟨r, hr⟩ := foldlM_ok l a₁ fun b' hb' => h b' (List.mem_cons_of_mem b hb')
    exact ⟨r, foldlM_cons_ok.mpr ⟨a₁, hb, hr⟩⟩

/-- A loop whose lines fail only with `e` fails with `e` once one of its
lines fails from every state. -/
theorem foldlM_error {e : ε} (he : ∀ a b e', f a b = .error e' → e' = e) :
    ∀ (l : List β) (a : α), (∃ b ∈ l, ∀ a, ∃ e', f a b = .error e') → l.foldlM f a = .error e
  | [], _, ⟨_, hb, _⟩ => absurd hb (List.not_mem_nil _)
  | b :: l, a, ⟨b', hb', hf⟩ => by
    rw [List.foldlM_cons]
    match hab : f a b with
    | .error e' => rw [he a b e' hab]; rfl
    | .ok a₁ =>
      have hl : ∃ b ∈ l, ∀ a, ∃ e', f a b = .error e' := by
        rcases List.mem_cons.mp hb' with rfl | hb'
        · obtain ⟨_, hb⟩ := hf a
          rw [hab] at hb
          cases hb
        · exact ⟨b', hb', hf⟩
      exact foldlM_error he l a₁ hl

/-- A loop whose every line adds one to the counter `c` exactly on the lines
satisfying `p` adds the number of those lines. -/
theorem foldlM_count (c : α → Nat) (p : β → Prop) [DecidablePred p]
    (h : ∀ a b a', f a b = .ok a' → c a' = c a + if p b then 1 else 0) :
    ∀ (l : List β) (a a' : α), l.foldlM f a = .ok a' → c a' = c a + (l.filter (p ·)).length
  | [], _, _, hl => by cases hl; rfl
  | b :: l, a, a', hl => by
    obtain ⟨a₁, hb, hl⟩ := foldlM_cons_ok.mp hl
    rw [foldlM_count c p h l a₁ a' hl, h a b a₁ hb, List.filter_cons]
    by_cases hp : p b <;> simp [hp]
    omega

/-- A loop whose every line commutes with `g` commutes with `g`. -/
theorem foldlM_hom (g : α → α) {f' : α → β → Except ε α}
    (h : ∀ a b, f (g a) b = g <$> f' a b) (l : List β) (a : α) :
    l.foldlM f (g a) = g <$> l.foldlM f' a := by
  induction l generalizing a with
  | nil => rfl
  | cons b l ih =>
    simp only [List.foldlM_cons, h, bind_map_left, ih, map_bind]

end Loops

end Cdec
