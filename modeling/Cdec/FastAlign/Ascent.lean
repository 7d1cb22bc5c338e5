import Cdec.FastAlign.Viterbi

/-!
# `Cdec.FastAlign.Ascent` — the likelihood never drops

Before the last pass, each pass of `main` is one iteration of EM for the
alignment model: the E-step adds every candidate's posterior to the counts,
and `Normalize` makes the counts of each source word the new table.  This
module states that iteration on its own (`emTable`), shows that the passes
compute it (`trainRun_emTable`), and proves the ascent property of EM for it:
with `variational_bayes` off, the likelihood under the table of pass `n + 1`
is at least the likelihood under the table of pass `n`, from `n = 1` on.

## How

Write `T` for the table of pass `n ≥ 1`, `c` for the counts of its E-step
and `T'` for `Normalize c`.

* At each target position, the posteriors `r_a` sum to `1`, and by the
  tangent line of `log` at `1`, `Σ_a r_a (log T'(w_a, f) - log T(w_a, f))`
  is at most `log Σ_a T' π - log Σ_a T π` (`posteriors_log_ratio_le`).
  Summed over the corpus, the left side is `c` weighed with
  `log T' - log T` (`weigh_log_ratio_le`).
* Row by row, `Σ_f c(e, f) (log (c(e, f) / C_e) - log T(e, f))` is at least
  `C_e (1 - Σ_f T(e, f))` (Gibbs' inequality, `weigh_normalize_nonneg`),
  which is `≥ 0` because `T`, itself normalized counts of the same pairs,
  sums to at most `1` over each row of `c` (`row_sum_Normalize_le_one`).

Pass `0` is left out: its table is the constant `1e-9` of `prob`, whose rows
need not sum to `1`.  A zero in the table (a NULL prior of `0`) is harmless:
a pair of table value `0` gets no count, and every target position keeps a
positive mass from pass to pass (`massPos_emTable`).

`emTable_ascent` is the step; `likelihood_ascends` reads it off the
reports of a run: the likelihood reported for iteration `k + 1` is at least
the one reported for iteration `k`, for every `k ≥ 2`.
-/

namespace Cdec

open Real

/-! ## Two consequences of `log y ≤ y - 1` -/

/-- One candidate's posterior-weighted log ratio, against the change of the
log mass. -/
theorem posterior_log_ratio_le {t t' p M M' : ℝ} (ht : 0 ≤ t) (hp : 0 ≤ p) (hM : 0 < M)
    (hM' : 0 < M') (hpos : 0 < t * p → 0 < t') (ht' : 0 ≤ t') :
    t * p / M * (log t' - log t)
      ≤ t * p / M * (log M' - log M) + (t' * p / M' - t * p / M) := by
  rcases (mul_nonneg ht hp).eq_or_lt with h0 | h0
  · rw [← h0, zero_div, zero_mul, zero_mul, zero_add, sub_zero]
    positivity
  · have ht0 : 0 < t := lt_of_le_of_ne ht fun h => by simp [← h] at h0
    have hp0 : 0 < p := lt_of_le_of_ne hp fun h => by simp [← h] at h0
    have ht'0 := hpos h0
    have hy := log_le_sub_one_of_pos (show 0 < t' * M / (t * M') by positivity)
    rw [log_div (by positivity) (by positivity), log_mul ht'0.ne' hM.ne',
      log_mul ht0.ne' hM'.ne'] at hy
    have hr : 0 ≤ t * p / M := by positivity
    calc t * p / M * (log t' - log t)
        = t * p / M * (log M' - log M) + t * p / M * (log t' + log M - (log t + log M')) := by ring
      _ ≤ t * p / M * (log M' - log M) + t * p / M * (t' * M / (t * M') - 1) := by gcongr
      _ = t * p / M * (log M' - log M) + (t' * p / M' - t * p / M) := by
          rw [mul_sub (t * p / M) _ 1, mul_one, div_mul_div_comm]
          congr 2
          rw [div_eq_div_iff (by positivity) hM'.ne']
          ring

/-- One entry of a row of counts `C`, against the table value `q` it replaces. -/
theorem entry_log_ratio_ge {v C q : ℝ} (hv : 0 ≤ v) (hvC : v ≤ C) (hq : 0 ≤ q)
    (hpos : 0 < v → 0 < q) : v - C * q ≤ v * (log (v / C) - log q) := by
  rcases hv.eq_or_lt with rfl | hv0
  · simp only [zero_sub, zero_mul, neg_nonpos]
    exact mul_nonneg hvC hq
  · have hC : 0 < C := hv0.trans_le hvC
    have hq0 := hpos hv0
    have hy := log_le_sub_one_of_pos (show 0 < C * q / v by positivity)
    rw [log_div (by positivity) hv0.ne', log_mul hC.ne' hq0.ne'] at hy
    rw [log_div hv0.ne' hC.ne']
    have h := mul_le_mul_of_nonneg_left hy hv0.le
    rw [mul_sub v (C * q / v) 1, mul_one, mul_div_assoc', mul_div_cancel_left₀ _ hv0.ne'] at h
    linarith

/-! ## One target position -/

section Position

variable (T T' : WordID → WordID → ℝ) (f : WordID) (cands : List (WordID × ℝ))

/-- A positive mass has a candidate of positive product. -/
theorem exists_pos_of_mass_pos (hM : 0 < mass T f cands) : ∃ c ∈ cands, 0 < T c.1 f * c.2 :=
  List.exists_lt_of_sum_lt (fun _ => 0) _ (by simpa [mass] using hM)

theorem le_mass {c : WordID × ℝ} (hc : c ∈ cands) (hnn : ∀ c ∈ cands, 0 ≤ T c.1 f * c.2) :
    T c.1 f * c.2 ≤ mass T f cands :=
  List.single_le_sum (fun _ hx => by obtain ⟨c, hc, rfl⟩ := List.mem_map.mp hx; exact hnn c hc)
    _ (List.mem_map_of_mem _ hc)

/-- At a target position of positive mass, the posterior-weighted change of
`log` of the table is at most the change of the log mass (Jensen's
inequality, through the tangent line of `log`). -/
theorem posteriors_log_ratio_le (hT : ∀ c ∈ cands, 0 ≤ T c.1 f) (hπ : ∀ c ∈ cands, 0 ≤ c.2)
    (hM : 0 < mass T f cands) (hT' : ∀ c ∈ cands, 0 ≤ T' c.1 f)
    (hpos : ∀ c ∈ cands, 0 < T c.1 f * c.2 → 0 < T' c.1 f) :
    ((posteriors T f cands).map fun x => x.2.2 * (log (T' x.1 x.2.1) - log (T x.1 x.2.1))).sum
      ≤ log (mass T' f cands) - log (mass T f cands) := by
  obtain ⟨c, hc, hcpos⟩ := exists_pos_of_mass_pos T f cands hM
  have hM' : 0 < mass T' f cands :=
    (mul_pos (hpos c hc hcpos) (pos_of_mul_pos_right hcpos (hT c hc))).trans_le
      (le_mass T' f cands hc fun c hc => mul_nonneg (hT' c hc) (hπ c hc))
  set M := mass T f cands
  set M' := mass T' f cands
  calc ((posteriors T f cands).map fun x => x.2.2 * (log (T' x.1 x.2.1) - log (T x.1 x.2.1))).sum
      = (cands.map fun c => T c.1 f * c.2 / M * (log (T' c.1 f) - log (T c.1 f))).sum := by
        simp only [posteriors, List.map_map]
        rfl
    _ ≤ (cands.map fun c => (T c.1 f * c.2) * ((log M' - log M - 1) / M) +
          T' c.1 f * c.2 * M'⁻¹).sum := by
        refine List.sum_le_sum fun c hc => ?_
        have h := posterior_log_ratio_le (hT c hc) (hπ c hc) hM hM' (hpos c hc) (hT' c hc)
        calc _ ≤ _ := h
          _ = _ := by ring
    _ = M * ((log M' - log M - 1) / M) + M' * M'⁻¹ := by
        simp only [List.sum_map_add, List.sum_map_mul_right]
        rfl
    _ = log M' - log M := by
        rw [mul_div_cancel₀ _ hM.ne', mul_inv_cancel₀ hM'.ne']
        ring

end Position

theorem sum_map_sub {α : Type} (l : List α) (g h : α → ℝ) :
    (l.map fun a => g a - h a).sum = (l.map g).sum - (l.map h).sum := by
  induction l with
  | nil => simp
  | cons a l ih => simp only [List.map_cons, List.sum_cons, ih]; ring

/-! ## A pass -/

section Pass

variable (ext : Externals ℝ) (cfg : Config ℝ) (corpus : List String)

/-- Every target position of the corpus has positive mass under `T`. -/
def MassPos (T : WordID → WordID → ℝ) : Prop :=
  ∀ p ∈ pairsOf ext cfg corpus, ∀ j < p.2.length,
    0 < mass T (p.2.getD j 0) (candidates ext.kNULL cfg p.1 p.2.length j)

theorem candidate_prior_nonneg {cfg : Config ℝ} (hpr : PriorsNonneg cfg) {kNULL : WordID}
    {src : List WordID} {J j : Nat} {c : WordID × ℝ} (hc : c ∈ candidates kNULL cfg src J j) :
    0 ≤ c.2 := by
  rw [candidates_eq] at hc
  obtain ⟨a, ha, rfl⟩ := List.mem_map.mp hc
  exact hpr _ _ _ a ha

theorem posterior_mem_sweepIncrements {T : WordID → WordID → ℝ} {p : List WordID × List WordID}
    (hp : p ∈ pairsOf ext cfg corpus) {j : Nat} (hj : j < p.2.length) {c : WordID × ℝ}
    (hc : c ∈ candidates ext.kNULL cfg p.1 p.2.length j) :
    (c.1, p.2.getD j 0, T c.1 (p.2.getD j 0) * c.2
      / mass T (p.2.getD j 0) (candidates ext.kNULL cfg p.1 p.2.length j))
      ∈ sweepIncrements ext cfg T corpus :=
  List.mem_flatMap.mpr ⟨p, hp, List.mem_flatMap.mpr
    ⟨j, List.mem_range.mpr hj, List.mem_map.mpr ⟨c, hc, rfl⟩⟩⟩

/-- Over a pass, the counts weighed with the change of `log` of the table
are at most the change of the log-likelihood, when every position has
positive mass and every pair with a positive posterior keeps a positive
value. -/
theorem weigh_log_ratio_le (T T' : WordID → WordID → ℝ) (hT : ∀ e f, 0 ≤ T e f)
    (hT' : ∀ e f, 0 ≤ T' e f) (hpr : PriorsNonneg cfg) (hM : MassPos ext cfg corpus T)
    (hpos : ∀ x ∈ sweepIncrements ext cfg T corpus, 0 < x.2.2 → 0 < T' x.1 x.2.1) :
    (UMap.empty.bumpSeq (sweepIncrements ext cfg T corpus)).weigh
        (fun e f => log (T' e f) - log (T e f))
      ≤ logLikelihood ext cfg T' corpus - logLikelihood ext cfg T corpus := by
  rw [UMap.weigh_bumpSeq, UMap.weigh_empty, zero_add, logLikelihood, logLikelihood,
    ← sum_map_sub, sweepIncrements, sum_map_flatMap]
  refine List.sum_le_sum fun p hp => ?_
  rw [lineLikelihood, lineLikelihood, ← sum_map_sub, lineIncrements, sum_map_flatMap]
  refine List.sum_le_sum fun j hj => ?_
  have hj := List.mem_range.mp hj
  refine posteriors_log_ratio_le T T' _ _ (fun c _ => hT _ _)
    (fun c hc => candidate_prior_nonneg hpr hc) (hM p hp j hj) (fun c _ => hT' _ _)
    fun c hc hcp => hpos _ (posterior_mem_sweepIncrements ext cfg corpus hp hj hc) ?_
  exact div_pos hcp (hM p hp j hj)

end Pass

/-! ## Normalized counts -/

section Gibbs

variable {c : Word2Word2Double ℝ} {e f : WordID} {row : Word2Double ℝ} {v : ℝ}

theorem cell_of_mem (hr : (e, row) ∈ c.entries) (hv : (f, v) ∈ row.entries) : c.cell e f = v := by
  simp [UMap.cell, UMap.find?_of_mem c hr, UMap.find?_of_mem row hv]

theorem prob_Normalize_of_mem (tt : Word2Word2Double ℝ) (hr : (e, row) ∈ c.entries)
    (hv : (f, v) ∈ row.entries) : (TTable.Normalize ⟨tt, c⟩).prob e f = v / TTable.total row := by
  simp [TTable.prob, TTable.Normalize, UMap.find?_of_mem c hr, UMap.find?_of_mem row hv]

theorem le_total_of_mem (hnn : ∀ x ∈ row.entries, 0 ≤ x.2) (hv : (f, v) ∈ row.entries) :
    v ≤ TTable.total row :=
  List.single_le_sum (fun _ hy => by obtain ⟨x, hx, rfl⟩ := List.mem_map.mp hy; exact hnn x hx)
    _ (List.mem_map_of_mem (fun x : WordID × ℝ => x.2) hv)

/-- Gibbs' inequality for normalized counts: weighed with
`log (Normalize c) - log T`, the counts `c` give at least `0`, when `T` is
positive wherever `c` is and sums to at most `1` over each row of `c`. -/
theorem weigh_normalize_nonneg (tt : Word2Word2Double ℝ) (T : WordID → WordID → ℝ)
    (hc : ∀ e f, 0 ≤ c.cell e f) (hT : ∀ e f, 0 ≤ T e f)
    (hpos : ∀ e f, 0 < c.cell e f → 0 < T e f)
    (hrow : ∀ e row, c.find? e = some row → (row.keys.map (T e)).sum ≤ 1) :
    0 ≤ c.weigh fun e f => log ((TTable.Normalize ⟨tt, c⟩).prob e f) - log (T e f) := by
  refine List.sum_nonneg fun y hy => ?_
  obtain ⟨⟨e, row⟩, hr, rfl⟩ := List.mem_map.mp hy
  have hnn := UMap.row_nonneg hc (UMap.find?_of_mem c hr)
  have hentry : ∀ x ∈ row.entries, x.2 - TTable.total row * T e x.1
      ≤ x.2 * (log ((TTable.Normalize ⟨tt, c⟩).prob e x.1) - log (T e x.1)) := by
    rintro ⟨f, v⟩ hv
    rw [prob_Normalize_of_mem tt hr hv]
    exact entry_log_ratio_ge (hnn _ hv) (le_total_of_mem hnn hv) (hT e f)
      fun h => hpos e f (by rwa [cell_of_mem hr hv])
  calc (0 : ℝ) ≤ TTable.total row * (1 - (row.keys.map (T e)).sum) :=
        mul_nonneg (List.sum_nonneg fun _ hy => by
          obtain ⟨x, hx, rfl⟩ := List.mem_map.mp hy; exact hnn x hx)
          (sub_nonneg.mpr (hrow e row (UMap.find?_of_mem c hr)))
    _ = (row.entries.map fun x => x.2 - TTable.total row * T e x.1).sum := by
        simp only [sum_map_sub, List.sum_map_mul_left, UMap.keys, List.map_map]
        simp only [TTable.total, UMap.sum, mul_sub, mul_one]
        rfl
    _ ≤ _ := List.sum_le_sum hentry

/-- A positive count gives a positive normalized value. -/
theorem prob_Normalize_pos (tt : Word2Word2Double ℝ) (hc : ∀ e f, 0 ≤ c.cell e f)
    (h : 0 < c.cell e f) : 0 < (TTable.Normalize ⟨tt, c⟩).prob e f := by
  unfold UMap.cell at h
  cases hr : c.find? e with
  | none => simp [hr] at h
  | some row =>
    cases hv : row.find? f with
    | none => simp [hr, hv] at h
    | some v =>
      simp only [hr, hv, Option.some_bind, Option.getD_some] at h
      have hre := UMap.mem_of_find? c hr
      have hve := UMap.mem_of_find? row hv
      rw [prob_Normalize_of_mem tt hre hve]
      exact div_pos h (h.trans_le (le_total_of_mem (UMap.row_nonneg hc hr) hve))

end Gibbs

/-! ## One EM step -/

section Step

variable (ext : Externals ℝ) (cfg : Config ℝ) (corpus : List String)

/-- A pair of table value `0` gets no count. -/
theorem increment_eq_zero {T : WordID → WordID → ℝ} {x : WordID × WordID × ℝ}
    (hx : x ∈ sweepIncrements ext cfg T corpus) (h : T x.1 x.2.1 = 0) : x.2.2 = 0 := by
  obtain ⟨p, -, hx⟩ := List.mem_flatMap.mp hx
  obtain ⟨j, -, hx⟩ := List.mem_flatMap.mp hx
  obtain ⟨c, -, rfl⟩ := List.mem_map.mp hx
  simp only at h ⊢
  rw [h, zero_mul, zero_div]

theorem increment_le_cell {incs : List (WordID × WordID × ℝ)} (h : ∀ x ∈ incs, 0 ≤ x.2.2)
    {x : WordID × WordID × ℝ} (hx : x ∈ incs) : x.2.2 ≤ (UMap.empty.bumpSeq incs).cell x.1 x.2.1 := by
  rw [UMap.cell_bumpSeq, UMap.cell_empty, zero_add]
  have hnn : ∀ y ∈ incs.map (fun y => if x.1 = y.1 ∧ x.2.1 = y.2.1 then y.2.2 else 0), 0 ≤ y := by
    intro y hy
    obtain ⟨z, hz, rfl⟩ := List.mem_map.mp hy
    split_ifs
    exacts [h z hz, le_rfl]
  simpa using List.single_le_sum hnn _ (List.mem_map_of_mem _ hx)

/-- One EM step does not lower the likelihood: from a table with positive
mass at every target position, whose rows sum to at most `1` over the pairs
the pass counts, normalizing the expected counts gives a table at least as
likely. -/
theorem logLikelihood_le_normalize (T : WordID → WordID → ℝ) (tt : Word2Word2Double ℝ)
    (hT : ∀ e f, 0 ≤ T e f) (hpr : PriorsNonneg cfg) (hM : MassPos ext cfg corpus T)
    (hrow : ∀ e row, (UMap.empty.bumpSeq (sweepIncrements ext cfg T corpus)).find? e = some row →
      (row.keys.map (T e)).sum ≤ 1) :
    logLikelihood ext cfg T corpus ≤ logLikelihood ext cfg
      (TTable.Normalize ⟨tt, UMap.empty.bumpSeq (sweepIncrements ext cfg T corpus)⟩).prob corpus := by
  have hinc := sweepIncrements_nonneg ext corpus hT hpr
  have hc := cell_bumpSeq_nonneg hinc
  have hcpos : ∀ e f, 0 < (UMap.empty.bumpSeq (sweepIncrements ext cfg T corpus)).cell e f →
      0 < T e f := by
    intro e f h
    refine (hT e f).lt_of_ne fun h0 => h.ne' ?_
    rw [UMap.cell_bumpSeq, UMap.cell_empty, zero_add]
    refine List.sum_eq_zero fun y hy => ?_
    obtain ⟨x, hx, rfl⟩ := List.mem_map.mp hy
    split_ifs with hxe
    · obtain ⟨rfl, rfl⟩ := hxe
      exact increment_eq_zero ext cfg corpus hx h0.symm
    · rfl
  have hgibbs := weigh_normalize_nonneg tt T hc hT hcpos hrow
  have hjensen := weigh_log_ratio_le ext cfg corpus T _ hT
    (TTable.prob_nonneg (TTable.Normalize_nonneg hc)) hpr hM
    fun x hx hx0 => prob_Normalize_pos tt hc (hx0.trans_le (increment_le_cell hinc hx))
  linarith

end Step

/-! ## Counts of the same pairs -/

section Support

variable {R : Type} [LinearOrderedField R] [CMath R] (ext : Externals R) (cfg : Config R)
  (corpus : List String)

/-- The counts of a pass hold exactly the candidate pairs of the corpus,
whatever the table. -/
theorem mem_counts (T : WordID → WordID → R) (e f : WordID) :
    (UMap.empty.bumpSeq (sweepIncrements ext cfg T corpus)).Mem e f ↔
      ∃ p ∈ pairsOf ext cfg corpus, ∃ j ∈ List.range p.2.length,
        ∃ c ∈ candidates ext.kNULL cfg p.1 p.2.length j, c.1 = e ∧ p.2.getD j 0 = f := by
  simp only [UMap.mem_bumpSeq, UMap.not_mem_empty, or_false, sweepIncrements, lineIncrements,
    posteriors, List.mem_flatMap, List.mem_map]
  constructor
  · rintro ⟨_, ⟨p, hp, j, hj, c, hc, rfl⟩, he, hf⟩
    exact ⟨p, hp, j, hj, c, hc, he, hf⟩
  · rintro ⟨p, hp, j, hj, c, hc, he, hf⟩
    exact ⟨_, ⟨p, hp, j, hj, c, hc, rfl⟩, he, hf⟩

end Support

/-- Normalized counts `c'` sum to at most `1` over each row of counts `c` of
the same pairs. -/
theorem row_sum_Normalize_le_one (tt : Word2Word2Double ℝ) {c c' : Word2Word2Double ℝ}
    (hc' : ∀ e f, 0 ≤ c'.cell e f) (hsupp : ∀ e f, c.Mem e f ↔ c'.Mem e f) {e : WordID}
    {row : Word2Double ℝ} (hrow : c.find? e = some row) :
    (row.keys.map ((TTable.Normalize ⟨tt, c'⟩).prob e)).sum ≤ 1 := by
  cases hr' : c'.find? e with
  | none =>
    have hk : row.keys = [] := List.eq_nil_iff_forall_not_mem.mpr fun f hf => by
      obtain ⟨_, h, -⟩ := (hsupp e f).mp ⟨row, hrow, hf⟩
      simp [hr'] at h
    simp [hk]
  | some row' =>
    have hperm : row.keys.Perm row'.keys := (List.perm_ext_iff_of_nodup row.nodup row'.nodup).mpr
      fun f => by
        have h := hsupp e f
        simp only [UMap.Mem, hrow, hr', Option.some.injEq, exists_eq_left'] at h
        exact h
    have hre := UMap.mem_of_find? c' hr'
    have hnn := UMap.row_nonneg hc' hr'
    rw [(hperm.map _).sum_eq, UMap.keys, List.map_map]
    calc ((row'.entries.map ((TTable.Normalize ⟨tt, c'⟩).prob e ∘ Prod.fst))).sum
        = (row'.entries.map fun x => x.2 * (TTable.total row')⁻¹).sum := by
          refine congrArg List.sum (List.map_congr_left fun x hx => ?_)
          simp only [Function.comp_apply, prob_Normalize_of_mem tt hre hx, div_eq_mul_inv]
      _ = TTable.total row' * (TTable.total row')⁻¹ := by
          rw [List.sum_map_mul_right]
          rfl
      _ ≤ 1 := by
          rcases eq_or_ne (TTable.total row') 0 with h | h
          · simp [h]
          · rw [mul_inv_cancel₀ h]

/-! ## The iteration of EM the passes compute -/

section Iteration

variable {R : Type} [LinearOrderedField R] [CMath R] (ext : Externals R) (cfg : Config R)
  (corpus : List String)

/-- The table before pass `n` of a run whose first `n` passes are not the
last: the M-step of the expected counts under the table before. -/
def emTable : Nat → TTable R
  | 0 => TTable.empty
  | n + 1 => mStep ext cfg ⟨(emTable n).ttable,
      UMap.empty.bumpSeq (sweepIncrements ext cfg (emTable n).prob corpus)⟩

@[simp] theorem emTable_counts (n : Nat) : (emTable ext cfg corpus n).counts = UMap.empty := by
  cases n
  · rfl
  · exact mStep_counts _ _ _

/-- What `main` reports of a pass: its number and its likelihood. -/
def Report.summary (r : Report R) : Nat × R := (r.iteration, r.likelihood)

theorem endPass_reports (iter : Nat) (st : TrainState R) :
    (endPass ext cfg iter st).reports = st.reports ++ [⟨iter + 1, cfg.final iter, st.likelihood,
      st.likelihood / CMath.log 2, -(st.likelihood / CMath.log 2) / st.denom,
      CMath.pow 2 (-(st.likelihood / CMath.log 2) / st.denom)⟩] := by
  unfold endPass
  split_ifs <;> rfl

/-- A pass over a corpus of non-empty sides reports the likelihood under the
table it starts from, and, unless it is the last, leaves the M-step of its
counts. -/
theorem iteration_spec (hne : ∀ l ∈ corpus, (ext.ReadLine l).1 ≠ [] ∧ (ext.ReadLine l).2 ≠ [])
    (n : Nat) (st : TrainState R) :
    ∃ st', iteration ext cfg corpus n st = .ok st' ∧
      (cfg.final n = false → st'.s2t = mStep ext cfg ⟨st.s2t.ttable,
        st.s2t.counts.bumpSeq (sweepIncrements ext cfg st.s2t.prob corpus)⟩) ∧
      ∃ r, st'.reports = st.reports ++ [r] ∧
        r.summary = (n + 1, logLikelihood ext cfg st.s2t.prob corpus) := by
  obtain ⟨st₁, h, ht, hc, hl, hr⟩ := sweep_spec ext cfg n corpus hne st
  refine ⟨_, iteration_of_sweep h, fun hf => ?_, _, by rw [endPass_reports, hr],
    by rw [Report.summary, hl]⟩
  rw [endPass_s2t, hf, if_neg Bool.false_ne_true]
  rw [hf, if_neg Bool.false_ne_true] at hc
  rw [← ht, ← hc]

/-- The first `n` passes, none of them the last, compute `emTable`, and
report the likelihoods under its first `n` tables. -/
theorem trainRun_emTable (hne : ∀ l ∈ corpus, (ext.ReadLine l).1 ≠ [] ∧ (ext.ReadLine l).2 ≠ [])
    (n : Nat) (hn : ∀ i < n, cfg.final i = false) :
    ∃ st, trainRun ext cfg corpus n = .ok st ∧ st.s2t = emTable ext cfg corpus n ∧
      st.reports.map Report.summary = (List.range n).map fun i =>
        (i + 1, logLikelihood ext cfg (emTable ext cfg corpus i).prob corpus) := by
  induction n with
  | zero => exact ⟨_, rfl, rfl, rfl⟩
  | succ n ih =>
    obtain ⟨st, h, hs, hr⟩ := ih fun i hi => hn i (Nat.lt_succ_of_lt hi)
    obtain ⟨st', h', hs', r, hr', hrs⟩ := iteration_spec ext cfg corpus hne n st
    refine ⟨st', by rw [trainRun_succ, h]; exact h', ?_, ?_⟩
    · rw [hs' (hn n (Nat.lt_succ_self n)), hs, emTable_counts]
      rfl
    · rw [hs] at hrs
      rw [hr', List.map_append, hr, List.range_succ, List.map_append]
      simp [hrs]

end Iteration

/-! ## The ascent -/

section Ascent

variable (ext : Externals ℝ) (cfg : Config ℝ) (corpus : List String)

theorem emTable_nonneg (hpr : PriorsNonneg cfg) :
    ∀ n e f, 0 ≤ (emTable ext cfg corpus n).ttable.cell e f
  | 0, e, f => by simp [emTable, TTable.empty]
  | n + 1, e, f => mStep_nonneg ext cfg (cell_bumpSeq_nonneg (sweepIncrements_nonneg ext corpus
      (TTable.prob_nonneg (emTable_nonneg hpr n)) hpr)) e f

/-- A prior of NULL in `[0, 1)` under `favor_diagonal` keeps every prior
non-negative. -/
theorem priorsNonneg_of {cfg : Config ℝ}
    (hp : cfg.favor_diagonal = true → 0 ≤ cfg.prob_align_null ∧ cfg.prob_align_null < 1) :
    PriorsNonneg cfg := by
  intro I J j a _
  unfold candPrior nullPrior uniformPrior
  split_ifs with h0 hf
  · exact (hp hf).1
  · positivity
  · exact srcPrior_nonneg (fun hf => (hp hf).2.le) I J j a

theorem emTable_succ (hvb : cfg.variational_bayes = false) (n : Nat) :
    emTable ext cfg corpus (n + 1) = TTable.Normalize ⟨(emTable ext cfg corpus n).ttable,
      UMap.empty.bumpSeq (sweepIncrements ext cfg (emTable ext cfg corpus n).prob corpus)⟩ := by
  rw [emTable, mStep, if_neg (by simp [hvb])]

/-- A candidate whose product with table `n` is positive makes the mass of
its position positive. -/
theorem mass_pos_of_mem (hpr : PriorsNonneg cfg) (n : Nat) {kNULL : WordID} {src : List WordID}
    {J j : Nat} {f : WordID} {c : WordID × ℝ} (hc : c ∈ candidates kNULL cfg src J j)
    (hpos : 0 < (emTable ext cfg corpus n).prob c.1 f * c.2) :
    0 < mass (emTable ext cfg corpus n).prob f (candidates kNULL cfg src J j) :=
  hpos.trans_le (le_mass _ _ _ hc fun _ hd => mul_nonneg
    (TTable.prob_nonneg (emTable_nonneg ext cfg corpus hpr n) _ _) (candidate_prior_nonneg hpr hd))

variable (hne : ∀ l ∈ corpus, (ext.ReadLine l).1 ≠ [] ∧ (ext.ReadLine l).2 ≠ [])
  (hvb : cfg.variational_bayes = false)
  (hp : cfg.favor_diagonal = true → 0 ≤ cfg.prob_align_null ∧ cfg.prob_align_null < 1)
include hne hvb hp

/-- Every target position keeps a positive mass from pass to pass: the
constant `1e-9` of the first pass, then a candidate whose posterior is
positive keeps a positive value. -/
theorem massPos_emTable : ∀ n, MassPos ext cfg corpus (emTable ext cfg corpus n).prob
  | 0 => by
    intro p hp' j _
    obtain ⟨l, hl, rfl⟩ := List.mem_map.mp hp'
    have hs := List.length_pos.mpr (orient_ne_nil cfg.reverse _ (hne l hl)).1
    generalize orient cfg.reverse (ext.ReadLine l) = q at hs ⊢
    have hc := @mem_candidates ℝ _ _ ext.kNULL cfg q.1 q.2.length j 1 (one_mem_candIndices cfg hs)
    have hpos : 0 < (emTable ext cfg corpus 0).prob (candWord ext.kNULL q.1 1) (q.2.getD j 0)
        * candPrior cfg q.1.length q.2.length j 1 := by
      rw [candPrior, if_neg one_ne_zero]
      exact mul_pos (by norm_num [emTable, TTable.prob_empty])
        (srcPrior_pos hs (fun hf => (hp hf).2) 1)
    exact mass_pos_of_mem ext cfg corpus (priorsNonneg_of hp) 0 hc hpos
  | n + 1 => by
    have hpr := priorsNonneg_of hp
    have hT := TTable.prob_nonneg (emTable_nonneg ext cfg corpus hpr n)
    intro p hp' j hj
    obtain ⟨c, hc, hcpos⟩ := exists_pos_of_mass_pos _ _ _
      (massPos_emTable n p hp' j hj)
    have hinc := posterior_mem_sweepIncrements ext cfg corpus
      (T := (emTable ext cfg corpus n).prob) hp' hj hc
    have hcell := (div_pos hcpos (massPos_emTable n p hp' j hj)).trans_le
      (increment_le_cell (sweepIncrements_nonneg ext corpus hT hpr) hinc)
    have hT' : 0 < (emTable ext cfg corpus (n + 1)).prob c.1 (p.2.getD j 0) := by
      rw [emTable_succ ext cfg corpus hvb]
      exact prob_Normalize_pos _ (cell_bumpSeq_nonneg (sweepIncrements_nonneg ext corpus hT hpr)) hcell
    exact mass_pos_of_mem ext cfg corpus hpr (n + 1) hc
      (mul_pos hT' (pos_of_mul_pos_right hcpos (hT _ _)))

/-- From the second pass on, each table of EM is at least as likely as the
one before. -/
theorem emTable_ascent (n : Nat) (hn : 1 ≤ n) :
    logLikelihood ext cfg (emTable ext cfg corpus n).prob corpus
      ≤ logLikelihood ext cfg (emTable ext cfg corpus (n + 1)).prob corpus := by
  obtain ⟨m, rfl⟩ : ∃ m, n = m + 1 := ⟨n - 1, by omega⟩
  have hpr := priorsNonneg_of hp
  rw [emTable_succ ext cfg corpus hvb (m + 1)]
  refine logLikelihood_le_normalize ext cfg corpus _ _
    (TTable.prob_nonneg (emTable_nonneg ext cfg corpus hpr (m + 1))) hpr
    (massPos_emTable ext cfg corpus hne hvb hp (m + 1)) fun e row hrow => ?_
  rw [emTable_succ ext cfg corpus hvb m]
  exact row_sum_Normalize_le_one _ (cell_bumpSeq_nonneg (sweepIncrements_nonneg ext corpus
    (TTable.prob_nonneg (emTable_nonneg ext cfg corpus hpr m)) hpr))
    (fun e f => by rw [mem_counts, mem_counts]) hrow

end Ascent

/-- With `variational_bayes` off and a NULL prior in `[0, 1)` under
`favor_diagonal`, on a corpus of non-empty sides: whenever iterations `k ≥ 2`
and `k + 1` run, the likelihood `main` reports for iteration `k + 1` is at
least the one it reports for iteration `k`. -/
theorem likelihood_ascends (ext : Externals ℝ) (cfg : Config ℝ) (corpus : List String)
    (hne : ∀ l ∈ corpus, (ext.ReadLine l).1 ≠ [] ∧ (ext.ReadLine l).2 ≠ [])
    (hvb : cfg.variational_bayes = false)
    (hp : cfg.favor_diagonal = true → 0 ≤ cfg.prob_align_null ∧ cfg.prob_align_null < 1)
    (k : Nat) (hk : 2 ≤ k) (hrun : k + 1 ≤ cfg.passes) :
    ∃ st, trainRun ext cfg corpus (k + 1) = .ok st ∧ ∃ pre r r', st.reports = pre ++ [r, r'] ∧
      r.iteration = k ∧ r'.iteration = k + 1 ∧ r.likelihood ≤ r'.likelihood := by
  have hfin : ∀ i < k, cfg.final i = false := fun i hi => by
    simp only [Config.final, Config.passes] at hrun ⊢
    simp only [beq_eq_false_iff_ne, ne_eq]
    omega
  obtain ⟨st, h, hs, hr⟩ := trainRun_emTable ext cfg corpus hne k hfin
  obtain ⟨st', h', -, r', hr', hrs'⟩ := iteration_spec ext cfg corpus hne k st
  obtain ⟨m, rfl⟩ : ∃ m, k = m + 1 := ⟨k - 1, by omega⟩
  obtain ⟨pre, r, hpre⟩ : ∃ pre r, st.reports = pre ++ [r] := by
    rcases List.eq_nil_or_concat st.reports with h0 | ⟨pre, r, h1⟩
    · simp [h0, List.range_succ] at hr
    · exact ⟨pre, r, by rw [h1, List.concat_eq_append]⟩
  rw [hpre, List.map_append, List.range_succ, List.map_append] at hr
  have hrs := List.append_inj_right' hr rfl
  simp only [List.map_cons, List.map_nil, List.cons.injEq, and_true, Report.summary,
    Prod.mk.injEq] at hrs hrs'
  refine ⟨st', by rw [trainRun_succ, h]; exact h', pre, r, r', by simp [hr', hpre], hrs.1,
    hrs'.1, ?_⟩
  rw [hrs.2, hrs'.2, hs]
  exact emTable_ascent ext cfg corpus hne hvb hp m (by omega)

theorem likelihood_ascends_third_pass :
    (∀ l ∈ ["a ||| x"], ((Externals.reading ([1], [2]) : Externals ℝ).ReadLine l).1 ≠ [] ∧
      ((Externals.reading ([1], [2]) : Externals ℝ).ReadLine l).2 ≠ []) ∧
    (Options.defaults : Options ℝ).config.variational_bayes = false ∧
    ((Options.defaults : Options ℝ).config.favor_diagonal = true →
      0 ≤ (Options.defaults : Options ℝ).config.prob_align_null ∧
        (Options.defaults : Options ℝ).config.prob_align_null < 1) ∧
    2 ≤ 2 ∧ 2 + 1 ≤ (Options.defaults : Options ℝ).config.passes ∧
    ∃ st, trainRun (Externals.reading ([1], [2])) (Options.defaults : Options ℝ).config
        ["a ||| x"] (2 + 1) = .ok st ∧ ∃ pre r r', st.reports = pre ++ [r, r'] ∧
      r.iteration = 2 ∧ r'.iteration = 2 + 1 ∧ r.likelihood ≤ r'.likelihood := by
  have hne : ∀ l ∈ ["a ||| x"], ((Externals.reading ([1], [2]) : Externals ℝ).ReadLine l).1 ≠ [] ∧
      ((Externals.reading ([1], [2]) : Externals ℝ).ReadLine l).2 ≠ [] := by
    simp [Externals.reading]
  have hvb : (Options.defaults : Options ℝ).config.variational_bayes = false := rfl
  have hp : (Options.defaults : Options ℝ).config.favor_diagonal = true →
      0 ≤ (Options.defaults : Options ℝ).config.prob_align_null ∧
        (Options.defaults : Options ℝ).config.prob_align_null < 1 := by
    simp [Options.config, Options.defaults]
  have hrun : 2 + 1 ≤ (Options.defaults : Options ℝ).config.passes := by decide
  exact ⟨hne, hvb, hp, le_rfl, hrun,
    likelihood_ascends _ _ _ hne hvb hp 2 le_rfl hrun⟩

end Cdec
