import Cdec.FastAlign.Argmax

/-!
# `Cdec.FastAlign.Prior` — the alignment prior, and what the arithmetic of a position needs

`loopPriors` lists the values `prob_a_i` takes where lines 127 and 141 (228
and 242) multiply it in.  `loopPriors_sum` computes their total in all four
settings of `use_null` and `favor_diagonal`: it is `1` in three of them and
`1 - prob_align_null` in the fourth, NULL off with the diagonal favoured,
because line 136 divides `az` by `prob_align_not_null` whether or not a NULL
slot takes the remaining mass.

`DividesSafely` says what the position's arithmetic needs: no division by
zero among `src.size() + use_null`, `trg.size()`, `src.size()`,
`prob_align_not_null`, `az` and `sum`, a positive `sum` under the `log`, and
increments in `[0, 1]`.  `main` checks none of this; `dividesSafely` proves it
from a positive table and a `prob_align_null` in `[0, 1)` when the diagonal
is favoured, which `main` takes as given.

The arithmetic is exact.  Of the doubles' effects, the one that empties a
divisor for every table is the underflow of the diagonal weights: past a
tension of about 745 the weights of a position can all be `0.0`, and so `az`.
Up to a tension of 700 every weight is above `2^-1022`, the least normal
double (`two_pow_neg_1022_lt_diagonalWeight`), so `az` is not `0` in doubles
either.
-/

namespace Cdec

variable {R : Type} [LinearOrderedField R] [CMath R]

/-- The values `prob_a_i` takes where the loops multiply it in: at the NULL
slot when `use_null`, then at the source positions `1..I`. -/
def loopPriors (cfg : Config R) (I J j : Nat) (u : List R) : List R :=
  let d := diagonalBlock cfg I J j u
  (if cfg.use_null then [startPrior cfg I] else []) ++ (List.range' 1 I).map (loopPrior cfg I d.1 d.2)

/-- Lines 123-178 and 224-246 at one target position divide only by non-zero
quantities, take the `log` of a positive `sum` (in both copies), and make
increments in `[0, 1]`. -/
def DividesSafely (kNULL : WordID) (cfg : Config R) (t : TTable R) (src : List WordID)
    (J j : Nat) (f : WordID) (probs u : List R) : Prop :=
  let I := src.length
  let r := fillProbs kNULL cfg t src J j f probs u
  ((I + cfg.use_null.toNat : Nat) : R) ≠ 0 ∧ (J : R) ≠ 0 ∧
  (cfg.favor_diagonal →
    (I : R) ≠ 0 ∧ cfg.prob_align_not_null ≠ 0 ∧ (diagonalBlock cfg I J j u).2 ≠ 0) ∧
  0 < r.2.2 ∧ 0 < (scorePosition kNULL cfg t src J j f u).2.sum ∧
  ∀ a ∈ candIndices cfg I, 0 ≤ r.1.getD a 0 / r.2.2 ∧ r.1.getD a 0 / r.2.2 ≤ 1

theorem loopPriors_eq (cfg : Config R) (I J j : Nat) (u : List R) (hu : I ≤ u.length) :
    loopPriors cfg I J j u
      = (if cfg.use_null then [nullPrior cfg I] else []) ++ (List.range' 1 I).map (srcPrior cfg I J j) := by
  unfold loopPriors
  dsimp only
  rw [List.map_congr_left fun i hi =>
    loopPrior_eq_srcPrior cfg u hu (by rw [List.mem_range'_1] at hi; omega)]
  by_cases hn : cfg.use_null <;> simp [hn, startPrior_eq_nullPrior]

omit [CMath R] in
theorem sum_range'_shift (g : Nat → R) (I : Nat) :
    ((List.range' 1 I).map fun i => g (i - 1)).sum = ((List.range I).map g).sum := by
  rw [List.range'_eq_map_range, List.map_map]
  congr 2
  funext x
  simp [Function.comp_def]

/-! ## The prior's total, over the reals -/

theorem diagonal_total_pos (tension : ℝ) {I : Nat} (J j : Nat) (hI : 1 ≤ I) :
    0 < ((List.range I).map (diagonalWeight tension I J j)).sum :=
  List.sum_pos _ (by simp [diagonalWeight, Real.exp_pos]) (by simp; omega)

theorem sum_srcPrior (cfg : Config ℝ) {I : Nat} (J j : Nat) (hI : 1 ≤ I) :
    ((List.range' 1 I).map (srcPrior cfg I J j)).sum
      = if cfg.favor_diagonal then cfg.prob_align_not_null else I * uniformPrior cfg.use_null I := by
  by_cases hf : cfg.favor_diagonal
  · set W := ((List.range I).map (diagonalWeight cfg.diagonal_tension I J j)).sum with hWdef
    have hW : W ≠ 0 := (diagonal_total_pos cfg.diagonal_tension J j hI).ne'
    have h : ∀ i, srcPrior cfg I J j i
        = diagonalWeight cfg.diagonal_tension I J j (i - 1) * (cfg.prob_align_not_null / W) := by
      intro i
      simp only [srcPrior, hf, if_true, diagonalZ, ← hWdef]
      rw [div_div_eq_mul_div, mul_div_assoc]
    rw [List.map_congr_left fun i _ => h i, List.sum_map_mul_right,
      sum_range'_shift (diagonalWeight cfg.diagonal_tension I J j), ← hWdef, if_pos hf]
    field_simp
  · have h : ∀ i, srcPrior cfg I J j i = uniformPrior cfg.use_null I := by simp [srcPrior, hf]
    simp [List.map_congr_left fun i _ => h i, hf]

/-- The prior's total over the slots the loops fill: `1`, except with NULL off
and the diagonal favoured, where it is `prob_align_not_null`. -/
theorem loopPriors_sum (cfg : Config ℝ) {I : Nat} (J j : Nat) (u : List ℝ) (hI : 1 ≤ I)
    (hu : I ≤ u.length) :
    (loopPriors cfg I J j u).sum
      = if !cfg.use_null && cfg.favor_diagonal then cfg.prob_align_not_null else 1 := by
  have hI' : (I : ℝ) ≠ 0 := by positivity
  rw [loopPriors_eq cfg I J j u hu, List.sum_append, sum_srcPrior cfg J j hI]
  cases hn : cfg.use_null <;> cases hf : cfg.favor_diagonal <;>
    simp [nullPrior, uniformPrior, Config.prob_align_not_null, hI', hn, hf]
  field_simp
  ring

/-- With NULL off and the diagonal favoured, `fast_align -d -N` on a one-word
line `a ||| x` multiplies in a prior of total `1 - 0.08`. -/
theorem prior_total_without_null_word :
    (loopPriors ({ (Options.defaults : Options ℝ) with
      input := some "corpus", favor_diagonal := true, no_null_word := true }).config 1 1 0 [0]).sum
      = 23 / 25 := by
  rw [loopPriors_sum _ 1 0 [0] le_rfl (by simp)]
  norm_num [Options.config, Options.defaults, Config.prob_align_not_null]

/-! ## The diagonal weights do not underflow -/

/-- `exp(-700)` is above `2^-1022`, the least normal double. -/
theorem two_pow_neg_1022_lt_exp_neg_700 : (1 : ℝ) / 2 ^ 1022 < Real.exp (-700) := by
  rw [one_div, ← Real.exp_log (by norm_num : (0 : ℝ) < 2), ← Real.exp_nat_mul, ← Real.exp_neg,
    Real.exp_lt_exp]
  have := Real.log_two_gt_d9
  push_cast
  linarith

/-- Both `ta / I` and `j / J` lie in `[0, 1)`, so a diagonal weight is at
least `exp(-tension)`, and at least `1` for a negative tension. -/
theorem exp_neg_700_le_diagonalWeight {tension : ℝ} (hτ : tension ≤ 700) {I J j ta : Nat}
    (hta : ta < I) (hj : j < J) : Real.exp (-700) ≤ diagonalWeight tension I J j ta := by
  have hd : |(ta : ℝ) / I - j / J| ≤ 1 := abs_sub_le_of_nonneg_of_le (by positivity)
    (div_le_one_of_le₀ (by exact_mod_cast hta.le) (by positivity)) (by positivity)
    (div_le_one_of_le₀ (by exact_mod_cast hj.le) (by positivity))
  rw [diagonalWeight, CMath.exp_real, Real.exp_le_exp, neg_mul, neg_le_neg_iff]
  linarith [mul_nonneg (abs_nonneg ((ta : ℝ) / I - j / J)) (sub_nonneg.mpr hτ)]

/-- Up to a tension of `700`, every diagonal weight is above `2^-1022`. -/
theorem two_pow_neg_1022_lt_diagonalWeight {tension : ℝ} (hτ : tension ≤ 700) {I J j ta : Nat}
    (hta : ta < I) (hj : j < J) : 1 / 2 ^ 1022 < diagonalWeight tension I J j ta :=
  two_pow_neg_1022_lt_exp_neg_700.trans_le (exp_neg_700_le_diagonalWeight hτ hta hj)

/-! ## What the arithmetic of a position needs -/

section Safety

variable {cfg : Config ℝ} {I J j : Nat}

theorem srcPrior_pos (hI : 1 ≤ I) (hp : cfg.favor_diagonal → cfg.prob_align_null < 1) (i : Nat) :
    0 < srcPrior cfg I J j i := by
  unfold srcPrior
  split_ifs with hf
  · have hW := diagonal_total_pos cfg.diagonal_tension J j hI
    have hn : 0 < cfg.prob_align_not_null := by
      rw [Config.prob_align_not_null]; linarith [hp hf]
    unfold diagonalZ diagonalWeight
    simp only [CMath.exp_real]
    positivity
  · unfold uniformPrior
    have : (0 : ℝ) < ((I + cfg.use_null.toNat : Nat) : ℝ) := by exact_mod_cast (by omega)
    positivity

theorem candPrior_nonneg (hI : 1 ≤ I) (hp : cfg.favor_diagonal → 0 ≤ cfg.prob_align_null ∧
    cfg.prob_align_null < 1) (a : Nat) : 0 ≤ candPrior cfg I J j a := by
  unfold candPrior nullPrior uniformPrior
  split_ifs with ha hf
  · exact (hp hf).1
  · positivity
  · exact (srcPrior_pos hI (fun hf => (hp hf).2) a).le

variable {kNULL : WordID} {t : TTable ℝ} {src : List WordID} {f : WordID}

/-- Under a positive table, every candidate's product is non-negative, each
is at most the mass, and the mass is positive. -/
theorem candProb_mem_unit (ht : ∀ e f, 0 < t.prob e f) (hs : src ≠ [])
    (hp : cfg.favor_diagonal → 0 ≤ cfg.prob_align_null ∧ cfg.prob_align_null < 1) :
    0 < mass t.prob f (candidates kNULL cfg src J j) ∧ ∀ a ∈ candIndices cfg src.length,
      0 ≤ candProb kNULL cfg t src J j f a ∧
        candProb kNULL cfg t src J j f a ≤ mass t.prob f (candidates kNULL cfg src J j) := by
  have hI : 1 ≤ src.length := List.length_pos.mpr hs
  have hnn : ∀ x ∈ (candIndices cfg src.length).map (candProb kNULL cfg t src J j f), 0 ≤ x := by
    simp only [List.mem_map]
    rintro _ ⟨a, -, rfl⟩
    exact mul_nonneg (ht _ _).le (candPrior_nonneg hI hp a)
  have hle : ∀ a ∈ candIndices cfg src.length,
      candProb kNULL cfg t src J j f a ≤ mass t.prob f (candidates kNULL cfg src J j) := by
    intro a ha
    rw [mass_eq_sum_candProb]
    exact List.single_le_sum hnn _ (List.mem_map_of_mem _ ha)
  have h1 : 1 ∈ candIndices cfg src.length := by simp [candIndices, List.mem_range'_1]; omega
  have hpos : 0 < candProb kNULL cfg t src J j f 1 := by
    rw [candProb, candPrior, if_neg one_ne_zero]
    exact mul_pos (ht _ _) (srcPrior_pos hI (fun hf => (hp hf).2) 1)
  refine ⟨hpos.trans_le (hle 1 h1), fun a ha => ⟨?_, hle a ha⟩⟩
  exact hnn _ (List.mem_map_of_mem _ ha)

/-- At a target position of a line with two non-empty sides, under a positive
table, a `prob_align_null` in `[0, 1)` and a tension of at most `700` when
the diagonal is favoured, both copies divide only by non-zero quantities,
take the `log` of a positive `sum`, and make increments in `[0, 1]`; and
every diagonal weight is above `2^-1022`, so that `az` is not `0` in doubles
either.  `probs` and the scratch buffer are as the line loop leaves them. -/
theorem dividesSafely (kNULL : WordID) (cfg : Config ℝ) (t : TTable ℝ) (src : List WordID)
    (J j : Nat) (f : WordID) (probs u : List ℝ)
    (hp : cfg.favor_diagonal → 0 ≤ cfg.prob_align_null ∧ cfg.prob_align_null < 1)
    (htension : cfg.favor_diagonal → cfg.diagonal_tension ≤ 700)
    (ht : ∀ e f, 0 < t.prob e f) (hs : src ≠ []) (hj : j < J)
    (hprobs : probs.length = src.length + 1) (hu : src.length ≤ u.length) :
    DividesSafely kNULL cfg t src J j f probs u ∧ (cfg.favor_diagonal → ∀ ta < src.length,
      1 / 2 ^ 1022 < diagonalWeight cfg.diagonal_tension src.length J j ta) := by
  refine ⟨?_, fun hf ta hta => two_pow_neg_1022_lt_diagonalWeight (htension hf) hta hj⟩
  have hI : 1 ≤ src.length := List.length_pos.mpr hs
  obtain ⟨hmass, hunit⟩ := @candProb_mem_unit cfg J j kNULL t src f ht hs hp
  unfold DividesSafely
  dsimp only
  rw [fillProbs_eq kNULL cfg t src J j f probs u hu, scorePosition_sum kNULL cfg t src J j f u hu]
  refine ⟨Nat.cast_ne_zero.mpr (by omega), Nat.cast_ne_zero.mpr (by omega),
    fun hf => ⟨Nat.cast_ne_zero.mpr (by omega), ?_, ?_⟩, hmass, hmass, ?_⟩
  · rw [Config.prob_align_not_null]; linarith [hp hf]
  · have hW := diagonal_total_pos cfg.diagonal_tension J j hI
    have hn : cfg.prob_align_not_null ≠ 0 := by rw [Config.prob_align_not_null]; linarith [hp hf]
    simp [diagonalBlock, hf, diagonalLoop_eq, hW.ne', hn]
  · intro a ha
    rw [probsAfter_candProb kNULL cfg t src J j f probs hprobs a ha]
    obtain ⟨h0, h1⟩ := hunit a ha
    exact ⟨div_nonneg h0 hmass.le, (div_le_one hmass).mpr h1⟩

/-- The first pass at default options (`-d` with its default tension `4`) on
the line `a ||| x`. -/
theorem dividesSafely_first_pass :
    let o : Options ℝ := { (Options.defaults : Options ℝ) with favor_diagonal := true }
    (o.config.favor_diagonal → 0 ≤ o.config.prob_align_null ∧ o.config.prob_align_null < 1) ∧
    (o.config.favor_diagonal → o.config.diagonal_tension ≤ 700) ∧
    (∀ e f, 0 < (TTable.empty : TTable ℝ).prob e f) ∧ ([1] : List WordID) ≠ [] ∧ 0 < 1 ∧
    DividesSafely 0 o.config TTable.empty [1] 1 0 2 [0, 0] [0] ∧
      (o.config.favor_diagonal → ∀ ta < 1, 1 / 2 ^ 1022 < diagonalWeight o.config.diagonal_tension 1 1 0 ta) := by
  intro o
  have hp : o.config.favor_diagonal → 0 ≤ o.config.prob_align_null ∧ o.config.prob_align_null < 1 := by
    norm_num [o, Options.config, Options.defaults]
  have hτ : o.config.favor_diagonal → o.config.diagonal_tension ≤ 700 := by
    norm_num [o, Options.config, Options.defaults]
  have ht : ∀ e f, 0 < (TTable.empty : TTable ℝ).prob e f := by norm_num [TTable.prob_empty]
  exact ⟨hp, hτ, ht, by simp, one_pos,
    dividesSafely _ _ _ _ _ _ _ _ _ hp hτ ht (by simp) one_pos rfl (by simp)⟩

end Safety

/-- `main` accepts `--favor_diagonal --prob_align_null 1`, and then divides
`az` by `prob_align_not_null`, which is `0`. -/
theorem favor_diagonal_certain_null_divides_by_zero :
    ({ (Options.defaults : Options ℝ) with
        input := some "corpus", favor_diagonal := true, prob_align_null := 1 }).validate = .ok () ∧
    (∀ e f, 0 < (TTable.empty : TTable ℝ).prob e f) ∧
    ¬ DividesSafely 0 ({ (Options.defaults : Options ℝ) with
        input := some "corpus", favor_diagonal := true, prob_align_null := 1 }).config
      TTable.empty [1] 1 0 2 [0, 0] [0] :=
  ⟨by norm_num [Options.validate, Options.defaults], by norm_num [TTable.prob_empty],
    fun h => (h.2.2.1 rfl).2.1 (by simp [Config.prob_align_not_null, Options.config])⟩

end Cdec
