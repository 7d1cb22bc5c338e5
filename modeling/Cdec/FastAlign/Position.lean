import Cdec.FastAlign.Config

/-!
# `Cdec.FastAlign.Position` — one target position of the E-step and of the scorer

For a sentence pair with source `src` (length `I`) and target of length `J`,
and a target position `j` with word `f_j`, both the training sweep
(lines 121-160) and the test scorer (lines 220-245) compute the alignment
prior of each candidate, multiply it by the table's `prob`, and add up the
results.  The two loops are separate copies in the source; they share the
prior's set-up (lines 124-127 / 225-228) and the diagonal block
(lines 130-137 / 231-238) verbatim, which are modelled once and used by both.
The rest — where the products go, and the argmax — is modelled per copy.

The closed forms below the loops (`nullPrior`, `srcPrior`, `candidates`,
`mass`) state what the loops compute: the candidates are NULL (when
`use_null`) and the source positions `1..I`, and the prior is uniform, or,
under `favor_diagonal`, `prob_align_null` for NULL and the diagonal weight
over `az` for a source position.  `fillProbs_probs` and `fillProbs_sum`
connect the two: they are where the scratch buffer's reuse across sentences
and the off-by-one between `unnormed_a_i[i-1]` and `src[i-1]` are settled.
-/

namespace Cdec

section SetAll

variable {R : Type}

/-! ## Writing slots and adding up

Both the `ta` loop and the `i` loop write a value into a slot of a vector and
add it to an accumulator.  One lemma says what such a loop leaves. -/

/-- The vector after writing `v i` into slot `i` for each `i` of `L` in turn. -/
def setAll (v : Nat → R) (L : List Nat) (p : List R) : List R :=
  L.foldl (fun q i => q.set i (v i)) p

theorem foldl_set_add [AddMonoid R] (v : Nat → R) (L : List Nat) (p : List R) (s : R) :
    L.foldl (fun acc i => (acc.1.set i (v i), acc.2 + v i)) (p, s)
      = (setAll v L p, s + (L.map v).sum) := by
  induction L generalizing p s with
  | nil => simp [setAll]
  | cons i L ih => simp [setAll, ih, add_assoc]

@[simp] theorem length_setAll (v : Nat → R) (L : List Nat) (p : List R) :
    (setAll v L p).length = p.length := by
  induction L generalizing p with
  | nil => rfl
  | cons i L ih => simp [setAll] at ih ⊢; simp [ih]

theorem getD_setAll [Zero R] (v : Nat → R) (L : List Nat) (p : List R) (k : Nat) :
    (setAll v L p).getD k 0 = if k ∈ L ∧ k < p.length then v k else p.getD k 0 := by
  induction L generalizing p with
  | nil => simp [setAll]
  | cons i L ih =>
      have h := ih (p.set i (v i))
      simp only [setAll, List.foldl_cons] at h ⊢
      rw [h, List.length_set]
      by_cases hl : k < p.length
      · by_cases hi : k = i
        · subst hi; simp [List.getD_eq_getElem?_getD, hl]
        · simp [List.getD_eq_getElem?_getD, List.getElem?_set, Ne.symm hi, hi]
      · have : (p.set i (v i))[k]? = none := List.getElem?_eq_none (by simpa using hl)
        simp [hl, List.getD_eq_getElem?_getD, this, List.getElem?_eq_none (not_lt.mp hl)]

theorem setAll_congr {v w : Nat → R} {L : List Nat} (p : List R) (h : ∀ i ∈ L, v i = w i) :
    setAll v L p = setAll w L p := by
  induction L generalizing p with
  | nil => rfl
  | cons i L ih =>
      simp only [setAll, List.foldl_cons] at ih ⊢
      rw [h i (List.mem_cons_self i L)]
      exact ih _ fun k hk => h k (List.mem_cons_of_mem i hk)

end SetAll

variable {R : Type} [LinearOrderedField R] [CMath R]

/-- `1.0 / (src.size() + use_null)` (lines 124, 225): the uniform prior of Model 1. -/
def uniformPrior (use_null : Bool) (I : Nat) : R := 1 / ((I + use_null.toNat : Nat) : R)

/-- `exp(-fabs(double(ta) / src.size() - j_over_ts) * diagonal_tension)`
(lines 133, 234), with `j_over_ts = double(j) / trg.size()`. -/
def diagonalWeight (tension : R) (I J j ta : Nat) : R :=
  CMath.exp (-|(ta : R) / I - (j : R) / J| * tension)

/-- The `ta` loop of lines 132-135 (233-236): each weight written into the
scratch buffer, and added to `az`. -/
def diagonalLoop (tension : R) (I J j : Nat) (unnormed : List R) : List R × R :=
  (List.range I).foldl
    (fun acc ta => (acc.1.set ta (diagonalWeight tension I J j ta),
      acc.2 + diagonalWeight tension I J j ta)) (unnormed, 0)

/-- Lines 130-137 (231-238): the scratch buffer and `az`, which is `0` when the
diagonal is not favoured. -/
def diagonalBlock (cfg : Config R) (I J j : Nat) (unnormed : List R) : List R × R :=
  if cfg.favor_diagonal then
    let r := diagonalLoop cfg.diagonal_tension I J j unnormed
    (r.1, r.2 / cfg.prob_align_not_null)
  else (unnormed, 0)

/-- `prob_a_i` on entry to the `i` loop (lines 124-127, 225-228). -/
def startPrior (cfg : Config R) (I : Nat) : R :=
  if cfg.use_null && cfg.favor_diagonal then cfg.prob_align_null else uniformPrior cfg.use_null I

/-- `prob_a_i` at source position `i`: the diagonal weight of `i - 1` over `az`
when the diagonal is favoured, else the value it entered the loop with
(lines 139-140, 240-241). -/
def loopPrior (cfg : Config R) (I : Nat) (unnormed : List R) (az : R) (i : Nat) : R :=
  if cfg.favor_diagonal then unnormed.getD (i - 1) 0 / az else startPrior cfg I

/-! ## The training copy: `probs` and `sum` -/

/-- Lines 122-143: `probs[0..I]` and `sum` at target position `j`; returns
`probs`, the scratch buffer, and `sum`.  `probs` is the line's vector, whose
slot `0` is written only when `use_null`. -/
def fillProbs (kNULL : WordID) (cfg : Config R) (t : TTable R) (src : List WordID)
    (J j : Nat) (f_j : WordID) (probs unnormed : List R) : List R × List R × R :=
  let I := src.length
  let start : List R × R :=
    if cfg.use_null then
      let p0 := t.prob kNULL f_j * startPrior cfg I
      (probs.set 0 p0, 0 + p0)
    else (probs, 0)
  let d := diagonalBlock cfg I J j unnormed
  let acc := (List.range' 1 I).foldl
    (fun acc i =>
      let p := t.prob (src.getD (i - 1) 0) f_j * loopPrior cfg I d.1 d.2 i
      (acc.1.set i p, acc.2 + p)) start
  (acc.1, d.1, acc.2)

/-- The running argmax of lines 146-160. -/
structure Best (R : Type) where
  max_i : WordID
  max_p : R
  max_index : Int

/-- One pass of the loop at lines 154-160: a later index wins only by `>`. -/
def bestStep (src : List WordID) (probs : List R) (b : Best R) (i : Nat) : Best R :=
  if probs.getD i 0 > b.max_p then ⟨src.getD (i - 1) 0, probs.getD i 0, i⟩ else b

/-- Lines 146-160: the argmax over `probs`, seeded with NULL when `use_null`
and with index `-1` at `-1` otherwise. -/
def argmaxProbs (kNULL : WordID) (cfg : Config R) (src : List WordID) (probs : List R) : Best R :=
  let init : Best R := if cfg.use_null then ⟨kNULL, probs.getD 0 0, 0⟩ else ⟨0, -1, -1⟩
  (List.range' 1 src.length).foldl (bestStep src probs) init

/-! ## The scorer's copy: `sum` and `a_j` -/

/-- The running state of the scorer's `i` loop: `max_pat`, `a_j`, `sum`. -/
structure ScoreAcc (R : Type) where
  max_pat : R
  a_j : Nat
  sum : R

/-- One pass of the loop at lines 239-245, `pat` being source position `i`'s
product: it wins only by `>`, and is added to `sum` either way. -/
def scoreStep (pat : Nat → R) (acc : ScoreAcc R) (i : Nat) : ScoreAcc R :=
  if pat i > acc.max_pat then ⟨pat i, i, acc.sum + pat i⟩ else ⟨acc.max_pat, acc.a_j, acc.sum + pat i⟩

/-- Lines 220-245: the scorer's `sum` and `a_j` at target position `j`, and the
scratch buffer after.  `a_j` starts at `0` and `max_pat` at the NULL product
(or `0`). -/
def scorePosition (kNULL : WordID) (cfg : Config R) (t : TTable R) (src : List WordID)
    (J j : Nat) (f_j : WordID) (unnormed : List R) : List R × ScoreAcc R :=
  let I := src.length
  let start : ScoreAcc R :=
    if cfg.use_null then
      let max_pat := t.prob kNULL f_j * startPrior cfg I
      ⟨max_pat, 0, 0 + max_pat⟩
    else ⟨0, 0, 0⟩
  let d := diagonalBlock cfg I J j unnormed
  let acc := (List.range' 1 I).foldl
    (scoreStep fun i => t.prob (src.getD (i - 1) 0) f_j * loopPrior cfg I d.1 d.2 i) start
  (d.1, acc)

/-! ## What the loops compute -/

/-- The prior of the NULL candidate. -/
def nullPrior (cfg : Config R) (I : Nat) : R :=
  if cfg.favor_diagonal then cfg.prob_align_null else uniformPrior cfg.use_null I

/-- `az`: the diagonal weights' total over `prob_align_not_null`. -/
def diagonalZ (cfg : Config R) (I J j : Nat) : R :=
  ((List.range I).map (diagonalWeight cfg.diagonal_tension I J j)).sum / cfg.prob_align_not_null

/-- The prior of source position `i ∈ 1..I`. -/
def srcPrior (cfg : Config R) (I J j i : Nat) : R :=
  if cfg.favor_diagonal then diagonalWeight cfg.diagonal_tension I J j (i - 1) / diagonalZ cfg I J j
  else uniformPrior cfg.use_null I

/-- The candidates of target position `j`, each a word with its prior: NULL
first when `use_null`, then the source positions `1..I` (`w_i = src[i-1]`). -/
def candidates (kNULL : WordID) (cfg : Config R) (src : List WordID) (J j : Nat) :
    List (WordID × R) :=
  (if cfg.use_null then [(kNULL, nullPrior cfg src.length)] else []) ++
    (List.range' 1 src.length).map fun i => (src.getD (i - 1) 0, srcPrior cfg src.length J j i)

/-- `Σ_a T(w_a, f) · π(a)`: the probability mass of target word `f` under the
candidates. -/
def mass (T : WordID → WordID → R) (f : WordID) (cands : List (WordID × R)) : R :=
  (cands.map fun c => T c.1 f * c.2).sum

/-! ## The diagonal block -/

theorem diagonalLoop_eq (tension : R) (I J j : Nat) (u : List R) :
    diagonalLoop tension I J j u
      = (setAll (diagonalWeight tension I J j) (List.range I) u,
          ((List.range I).map (diagonalWeight tension I J j)).sum) := by
  simp [diagonalLoop, foldl_set_add]

/-- The scratch buffer is read only where this position wrote it: after the
`ta` loop its slot `i - 1` holds the weight of `i - 1`, for every source
position `i`, whatever the buffer held before — provided it was grown to `I`. -/
theorem loopPrior_eq_srcPrior (cfg : Config R) {I J j i : Nat} (u : List R)
    (hu : I ≤ u.length) (hi : 1 ≤ i ∧ i ≤ I) :
    loopPrior cfg I (diagonalBlock cfg I J j u).1 (diagonalBlock cfg I J j u).2 i
      = srcPrior cfg I J j i := by
  unfold loopPrior srcPrior diagonalBlock diagonalZ
  by_cases hf : cfg.favor_diagonal
  · have hk : i - 1 ∈ List.range I ∧ i - 1 < u.length := ⟨List.mem_range.mpr (by omega), by omega⟩
    simp only [hf, if_true, diagonalLoop_eq]
    rw [getD_setAll, if_pos hk]
  · simp [hf, startPrior]

omit [CMath R] in
theorem startPrior_eq_nullPrior (cfg : Config R) (I : Nat) (h : cfg.use_null) :
    startPrior cfg I = nullPrior cfg I := by
  simp [startPrior, nullPrior, h]

@[simp] theorem length_diagonalBlock (cfg : Config R) (I J j : Nat) (u : List R) :
    (diagonalBlock cfg I J j u).1.length = u.length := by
  unfold diagonalBlock; split_ifs <;> simp [diagonalLoop_eq]

/-! ## The training copy in closed form -/

/-- The products `fillProbs` writes into slots `1..I`. -/
def srcProbs (t : TTable R) (cfg : Config R) (src : List WordID) (J j : Nat) (f : WordID) (i : Nat) : R :=
  t.prob (src.getD (i - 1) 0) f * srcPrior cfg src.length J j i

theorem mass_candidates (kNULL : WordID) (cfg : Config R) (t : TTable R) (src : List WordID)
    (J j : Nat) (f : WordID) :
    mass t.prob f (candidates kNULL cfg src J j)
      = (if cfg.use_null then t.prob kNULL f * nullPrior cfg src.length else 0)
        + ((List.range' 1 src.length).map (srcProbs t cfg src J j f)).sum := by
  unfold mass candidates srcProbs
  split_ifs <;> simp [Function.comp_def]

/-- The vector `fillProbs` leaves: the NULL product in slot `0` when
`use_null` (slot `0` untouched otherwise), the product of source position `i`
in slot `i`. -/
def probsAfter (kNULL : WordID) (cfg : Config R) (t : TTable R) (src : List WordID) (J j : Nat)
    (f : WordID) (probs : List R) : List R :=
  setAll (srcProbs t cfg src J j f) (List.range' 1 src.length)
    (if cfg.use_null then probs.set 0 (t.prob kNULL f * nullPrior cfg src.length) else probs)

/-- One target position of the training sweep, in closed form: `probs` as
`probsAfter` says, and `sum` the mass of `f` under the candidates.  The only
requirement is the one the line's `resize` guarantees: the scratch buffer has
room for the sentence. -/
theorem fillProbs_eq (kNULL : WordID) (cfg : Config R) (t : TTable R) (src : List WordID)
    (J j : Nat) (f : WordID) (probs u : List R) (hu : src.length ≤ u.length) :
    fillProbs kNULL cfg t src J j f probs u
      = (probsAfter kNULL cfg t src J j f probs, (diagonalBlock cfg src.length J j u).1,
         mass t.prob f (candidates kNULL cfg src J j)) := by
  have hv : ∀ i ∈ List.range' 1 src.length,
      t.prob (src.getD (i - 1) 0) f
          * loopPrior cfg src.length (diagonalBlock cfg src.length J j u).1
              (diagonalBlock cfg src.length J j u).2 i
        = srcProbs t cfg src J j f i := by
    intro i hi
    rw [List.mem_range'_1] at hi
    rw [srcProbs, loopPrior_eq_srcPrior cfg u hu (by omega)]
  rw [mass_candidates]
  unfold fillProbs probsAfter
  by_cases hn : cfg.use_null
  · simp only [hn, if_true, foldl_set_add, startPrior_eq_nullPrior cfg _ hn,
      List.map_congr_left hv, setAll_congr _ hv, zero_add]
  · simp only [hn, if_false, foldl_set_add, List.map_congr_left hv, setAll_congr _ hv,
      Bool.false_eq_true]

section ProbsAfter

variable (kNULL : WordID) (cfg : Config R) (t : TTable R) (src : List WordID) (J j : Nat)
  (f : WordID) (probs : List R)

@[simp] theorem length_probsAfter :
    (probsAfter kNULL cfg t src J j f probs).length = probs.length := by
  unfold probsAfter; split_ifs <;> simp

theorem probsAfter_null (hp : probs.length = src.length + 1) (hn : cfg.use_null) :
    (probsAfter kNULL cfg t src J j f probs).getD 0 0 = t.prob kNULL f * nullPrior cfg src.length := by
  have h0 : (0 : Nat) ∉ List.range' 1 src.length := by simp [List.mem_range'_1]
  unfold probsAfter
  rw [getD_setAll, if_neg (fun h => h0 h.1)]
  simp [hn, List.getD_eq_getElem?_getD, hp]

theorem probsAfter_src (hp : probs.length = src.length + 1) (i : Nat) (hi : 1 ≤ i ∧ i ≤ src.length) :
    (probsAfter kNULL cfg t src J j f probs).getD i 0 = srcProbs t cfg src J j f i := by
  have hm : i ∈ List.range' 1 src.length := List.mem_range'_1.mpr (by omega)
  have hl : i < (if cfg.use_null then probs.set 0 (t.prob kNULL f * nullPrior cfg src.length)
      else probs).length := by split_ifs <;> simp [hp] <;> omega
  unfold probsAfter
  rw [getD_setAll, if_pos ⟨hm, hl⟩]

end ProbsAfter

end Cdec
