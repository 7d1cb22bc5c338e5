import Cdec.FastAlign.Train

/-!
# `Cdec.FastAlign.Estep` — what a pass accumulates

A pass that is not the last adds, at every target position, each candidate's
product over `sum` to the counts.  Read as a list of increments `(e, f, δ)`,
that is `sweepIncrements`: for every line, every target position `j`, every
candidate `a`, the posterior `T(w_a, f_j) π(a) / Σ_a' T(w_a', f_j) π(a')`.
`sweep_spec` says the counts after the pass are the counts before with
exactly these increments applied, in this order, and the pass's
`likelihood` is the sum of `log Σ_a T(w_a, f_j) π(a)`.  The specification's
expected count of a pair is the sum of the increments that land on it, and
every statement about counts later on is read off `bumpSeq` through one of
`cell_bumpSeq`, `weigh_bumpSeq` or `mem_bumpSeq`.

Both rest on `trainPosition_spec`, the closed form of one target position: it
is the one place the products of `fillProbs_eq` meet the increments of
lines 173-176.
-/

namespace Cdec

variable {R : Type} [LinearOrderedField R] [CMath R]

/-! ## A sequence of increments -/

namespace UMap

omit [CMath R]

/-- `m[e][f] += δ` for each `(e, f, δ)` in turn. -/
def bumpSeq (m : UMap (UMap R)) (incs : List (WordID × WordID × R)) : UMap (UMap R) :=
  incs.foldl (fun m x => m.bump x.1 x.2.1 x.2.2) m

@[simp] theorem bumpSeq_nil (m : UMap (UMap R)) : m.bumpSeq [] = m := rfl

theorem bumpSeq_append (m : UMap (UMap R)) (l₁ l₂ : List (WordID × WordID × R)) :
    m.bumpSeq (l₁ ++ l₂) = (m.bumpSeq l₁).bumpSeq l₂ := by
  simp [bumpSeq, List.foldl_append]

theorem cell_bumpSeq (m : UMap (UMap R)) (incs : List (WordID × WordID × R)) (e f : WordID) :
    (m.bumpSeq incs).cell e f
      = m.cell e f + (incs.map fun x => if e = x.1 ∧ f = x.2.1 then x.2.2 else 0).sum := by
  induction incs generalizing m with
  | nil => simp
  | cons x incs ih =>
      simp only [bumpSeq, List.foldl_cons] at ih ⊢
      rw [ih, cell_bump]
      simp [add_assoc]

theorem weigh_bumpSeq (m : UMap (UMap R)) (incs : List (WordID × WordID × R))
    (g : WordID → WordID → R) :
    (m.bumpSeq incs).weigh g = m.weigh g + (incs.map fun x => x.2.2 * g x.1 x.2.1).sum := by
  induction incs generalizing m with
  | nil => simp
  | cons x incs ih =>
      simp only [bumpSeq, List.foldl_cons] at ih ⊢
      rw [ih, weigh_bump]
      simp [add_assoc]

theorem mem_bumpSeq (m : UMap (UMap R)) (incs : List (WordID × WordID × R)) (e f : WordID) :
    (m.bumpSeq incs).Mem e f ↔ (∃ x ∈ incs, x.1 = e ∧ x.2.1 = f) ∨ m.Mem e f := by
  induction incs generalizing m with
  | nil => simp
  | cons x incs ih =>
      simp only [bumpSeq, List.foldl_cons] at ih ⊢
      rw [ih, mem_bump]
      constructor
      · rintro (⟨y, hy, rfl, rfl⟩ | ⟨rfl, rfl⟩ | h)
        · exact .inl ⟨y, List.mem_cons_of_mem _ hy, rfl, rfl⟩
        · exact .inl ⟨x, List.mem_cons_self _ _, rfl, rfl⟩
        · exact .inr h
      · rintro (⟨y, hy, rfl, rfl⟩ | h)
        · rcases List.mem_cons.mp hy with rfl | hy
          · exact .inr (.inl ⟨rfl, rfl⟩)
          · exact .inl ⟨y, hy, rfl, rfl⟩
        · exact .inr (.inr h)

end UMap

omit [CMath R] in
theorem foldl_Increment {α : Type} (L : List α) (w : α → WordID) (f : WordID) (δ : α → R)
    (t : TTable R) :
    L.foldl (fun t i => t.Increment (w i) f (δ i)) t
      = ⟨t.ttable, t.counts.bumpSeq (L.map fun i => (w i, f, δ i))⟩ := by
  induction L generalizing t with
  | nil => rfl
  | cons i L ih => simp [ih, UMap.bumpSeq]

omit [CMath R] in
theorem sum_map_flatMap {α β : Type} (L : List α) (h : α → List β) (g : β → R) :
    ((L.flatMap h).map g).sum = (L.map fun a => ((h a).map g).sum).sum := by
  induction L with
  | nil => rfl
  | cons a L ih => simp [ih]

/-! ## The E-step, as the specification states it -/

/-- The sentence pairs of a corpus as a pass sees them, reversed when `reverse`. -/
def pairsOf (ext : Externals R) (cfg : Config R) (corpus : List String) :
    List (List WordID × List WordID) :=
  corpus.map fun l => orient cfg.reverse (ext.ReadLine l)

/-- The increments of one target position: each candidate's posterior. -/
def posteriors (T : WordID → WordID → R) (f : WordID) (cands : List (WordID × R)) :
    List (WordID × WordID × R) :=
  cands.map fun c => (c.1, f, T c.1 f * c.2 / mass T f cands)

/-- The increments of one sentence pair, position by position. -/
def lineIncrements (kNULL : WordID) (cfg : Config R) (T : WordID → WordID → R)
    (p : List WordID × List WordID) : List (WordID × WordID × R) :=
  (List.range p.2.length).flatMap fun j =>
    posteriors T (p.2.getD j 0) (candidates kNULL cfg p.1 p.2.length j)

/-- The increments of a whole pass under the probabilities `T`. -/
def sweepIncrements (ext : Externals R) (cfg : Config R) (T : WordID → WordID → R)
    (corpus : List String) : List (WordID × WordID × R) :=
  (pairsOf ext cfg corpus).flatMap (lineIncrements ext.kNULL cfg T)

/-- `Σ_j log Σ_a π(a) T(w_a, f_j)` of one sentence pair. -/
def lineLikelihood (kNULL : WordID) (cfg : Config R) (T : WordID → WordID → R)
    (p : List WordID × List WordID) : R :=
  ((List.range p.2.length).map fun j =>
    CMath.log (mass T (p.2.getD j 0) (candidates kNULL cfg p.1 p.2.length j))).sum

/-- The log-likelihood of a corpus under the probabilities `T`. -/
def logLikelihood (ext : Externals R) (cfg : Config R) (T : WordID → WordID → R)
    (corpus : List String) : R :=
  ((pairsOf ext cfg corpus).map (lineLikelihood ext.kNULL cfg T)).sum

/-- The expected count of `(e, f)` under the probabilities `T`: over lines, over positions
`j` with `trg[j] = f`, over candidates `a` with `w_a = e`, of
`π(a) T(e, f) / Σ_a' π(a') T(w_a', f)`. -/
def expectedCount (ext : Externals R) (cfg : Config R) (T : WordID → WordID → R)
    (corpus : List String) (e f : WordID) : R :=
  ((pairsOf ext cfg corpus).map fun p =>
    ((List.range p.2.length).map fun j =>
      if p.2.getD j 0 = f then
        let cands := candidates ext.kNULL cfg p.1 p.2.length j
        ((cands.filter (·.1 = e)).map fun c => c.2 * T e f / mass T f cands).sum
      else 0).sum).sum

omit [CMath R] in
theorem sum_ite_eq_filter {α : Type} (l : List (WordID × α)) (e : WordID) (F : WordID × α → R) :
    (l.map fun c => if e = c.1 then F c else 0).sum = ((l.filter (·.1 = e)).map F).sum := by
  induction l with
  | nil => rfl
  | cons c l ih =>
      by_cases h : e = c.1
      · subst h; simp [ih, List.filter_cons]
      · simp [h, ih, List.filter_cons, Ne.symm h]

theorem sum_sweepIncrements_cell (ext : Externals R) (cfg : Config R) (T : WordID → WordID → R)
    (corpus : List String) (e f : WordID) :
    ((sweepIncrements ext cfg T corpus).map fun x => if e = x.1 ∧ f = x.2.1 then x.2.2 else 0).sum
      = expectedCount ext cfg T corpus e f := by
  unfold sweepIncrements expectedCount lineIncrements posteriors
  simp only [sum_map_flatMap, List.map_map]
  congr 1; apply List.map_congr_left; intro p _
  congr 1; apply List.map_congr_left; intro j _
  generalize p.2.getD j 0 = g
  generalize candidates ext.kNULL cfg p.1 p.2.length j = cands
  by_cases hf : g = f
  · subst hf
    rw [if_pos rfl, ← sum_ite_eq_filter]
    congr 1; apply List.map_congr_left; intro c _
    by_cases h : e = c.1
    · subst h; simp [mul_comm]
    · simp [h]
  · simp [Function.comp_def, Ne.symm hf, hf]

/-! ## One target position in closed form -/

section Position

variable (kNULL : WordID) (cfg : Config R) (src trg : List WordID)

omit [CMath R] in
theorem incrementPosition_eq (f : WordID) (sum : R) (st : TrainState R) :
    incrementPosition kNULL cfg src f sum st
      = { st with s2t := ⟨st.s2t.ttable, st.s2t.counts.bumpSeq
          ((if cfg.use_null then [(kNULL, f, st.probs.getD 0 0 / sum)] else []) ++
            (List.range' 1 src.length).map fun i => (src.getD (i - 1) 0, f, st.probs.getD i 0 / sum))⟩ } := by
  unfold incrementPosition
  by_cases hn : cfg.use_null
  · simp only [hn, if_true, foldl_Increment, List.singleton_append]; rfl
  · simp only [hn, if_false, foldl_Increment, List.nil_append, Bool.false_eq_true]

/-- The slots `fillProbs` writes, each over `sum`, are the posteriors. -/
theorem fillProbs_posteriors (t : TTable R) (J j : Nat) (f : WordID) (probs : List R)
    (hp : probs.length = src.length + 1) :
    ((if cfg.use_null then
        [(kNULL, f, (probsAfter kNULL cfg t src J j f probs).getD 0 0
          / mass t.prob f (candidates kNULL cfg src J j))] else []) ++
      (List.range' 1 src.length).map fun i =>
        (src.getD (i - 1) 0, f, (probsAfter kNULL cfg t src J j f probs).getD i 0
          / mass t.prob f (candidates kNULL cfg src J j)))
      = posteriors t.prob f (candidates kNULL cfg src J j) := by
  unfold posteriors
  generalize mass t.prob f (candidates kNULL cfg src J j) = M
  unfold candidates
  rw [List.map_append, List.map_map]
  congr 1
  · by_cases hn : cfg.use_null
    · rw [probsAfter_null kNULL cfg t src J j f probs hp hn]; simp [hn]
    · simp [hn]
  · apply List.map_congr_left
    intro i hi
    rw [List.mem_range'_1] at hi
    rw [probsAfter_src kNULL cfg t src J j f probs hp i (by omega)]
    simp [srcProbs]

omit [CMath R] in
theorem prob_eq_of_ttable {t₁ t₂ : TTable R} (h : t₁.ttable = t₂.ttable) : t₁.prob = t₂.prob := by
  unfold TTable.prob; rw [h]

/-- One target position in closed form.  Both kinds of pass write `probs`
and the scratch buffer, and add `log sum` to the likelihood; the last pass
leaves the table alone, an earlier one adds the posteriors to the counts. -/
theorem trainPosition_spec (final : Bool) (st : TrainState R) (j : Nat)
    (hp : st.probs.length = src.length + 1) (hu : src.length ≤ st.unnormed_a_i.length) :
    let st' := trainPosition kNULL cfg final src trg st j
    st'.s2t.ttable = st.s2t.ttable ∧
    st'.s2t.counts = (if final then st.s2t.counts else st.s2t.counts.bumpSeq
      (posteriors st.s2t.prob (trg.getD j 0) (candidates kNULL cfg src trg.length j))) ∧
    st'.likelihood = st.likelihood
      + CMath.log (mass st.s2t.prob (trg.getD j 0) (candidates kNULL cfg src trg.length j)) ∧
    st'.probs.length = st.probs.length ∧ st'.unnormed_a_i.length = st.unnormed_a_i.length := by
  unfold trainPosition
  dsimp only
  rw [fillProbs_eq _ _ _ _ _ _ _ _ _ hu]
  cases final
  · simp only [Bool.false_eq_true, if_false, incrementPosition_eq]
    rw [fillProbs_posteriors _ _ _ _ _ _ _ _ hp]
    simp
  · simp [finalPosition]
    split_ifs <;> simp

end Position

/-! ## A line, and a pass -/

section Pass

variable (ext : Externals R) (cfg : Config R)

/-- The `j` loop over any list of positions, in closed form. -/
theorem positions_spec (kNULL : WordID) (final : Bool) (src trg : List WordID) (L : List Nat)
    (st : TrainState R) (hp : st.probs.length = src.length + 1)
    (hu : src.length ≤ st.unnormed_a_i.length) :
    let st' := L.foldl (trainPosition kNULL cfg final src trg) st
    st'.s2t.ttable = st.s2t.ttable ∧
    st'.s2t.counts = (if final then st.s2t.counts else st.s2t.counts.bumpSeq
      (L.flatMap fun j => posteriors st.s2t.prob (trg.getD j 0) (candidates kNULL cfg src trg.length j))) ∧
    st'.likelihood = st.likelihood + (L.map fun j =>
      CMath.log (mass st.s2t.prob (trg.getD j 0) (candidates kNULL cfg src trg.length j))).sum := by
  induction L generalizing st with
  | nil => simp
  | cons j L ih =>
      obtain ⟨ht, hc, hl, hpl, hul⟩ := trainPosition_spec kNULL cfg src trg final st j hp hu
      obtain ⟨ht', hc', hl'⟩ := ih _ (hpl.trans hp) (hul ▸ hu)
      have hprob := prob_eq_of_ttable ht
      simp only [List.foldl_cons]
      refine ⟨ht'.trans ht, ?_, ?_⟩
      · rw [hc', hc, hprob]; cases final <;> simp [UMap.bumpSeq_append]
      · rw [hl', hl, hprob]; simp [add_assoc]

/-- `orient` does not change what the two sides are, only which is which. -/
theorem orient_ne_nil (reverse : Bool) (p : List WordID × List WordID) (h : p.1 ≠ [] ∧ p.2 ≠ []) :
    (orient reverse p).1 ≠ [] ∧ (orient reverse p).2 ≠ [] := by
  cases reverse <;> simp [orient, h]

/-- A line with two non-empty sides, in closed form. -/
theorem trainLine_spec (iter : Nat) (st : TrainState R) (line : String)
    (hne : (ext.ReadLine line).1 ≠ [] ∧ (ext.ReadLine line).2 ≠ []) :
    ∃ st', trainLine ext cfg iter st line = .ok st' ∧
      st'.s2t.ttable = st.s2t.ttable ∧
      st'.s2t.counts = (if cfg.final iter then st.s2t.counts else st.s2t.counts.bumpSeq
        (lineIncrements ext.kNULL cfg st.s2t.prob (orient cfg.reverse (ext.ReadLine line)))) ∧
      st'.likelihood = st.likelihood
        + lineLikelihood ext.kNULL cfg st.s2t.prob (orient cfg.reverse (ext.ReadLine line)) ∧
      st'.reports = st.reports := by
  obtain ⟨h1, h2⟩ := orient_ne_nil cfg.reverse _ hne
  unfold trainLine
  dsimp only
  generalize orient cfg.reverse (ext.ReadLine line) = p at h1 h2 ⊢
  rw [if_neg (by simp [List.length_eq_zero, h1, h2])]
  obtain ⟨ht, hc, hl⟩ := positions_spec cfg ext.kNULL (cfg.final iter) p.1 p.2
    (List.range p.2.length) (startLine iter p.1 p.2 st) (by simp [startLine])
    (by simp only [startLine]; split_ifs with h
        · simp [resize]; omega
        · omega)
  simp only [startLine_s2t, startLine_likelihood] at ht hc hl
  refine ⟨_, rfl, ?_⟩
  by_cases hw : (cfg.write_alignments && cfg.final iter && !cfg.hide_training_alignments) = true
  · rw [if_pos hw]; exact ⟨ht, hc, hl, by simp⟩
  · rw [if_neg hw]; exact ⟨ht, hc, hl, by simp⟩

/-- The line loop over lines with non-empty sides, in closed form. -/
theorem lines_spec (iter : Nat) (corpus : List String)
    (hne : ∀ l ∈ corpus, (ext.ReadLine l).1 ≠ [] ∧ (ext.ReadLine l).2 ≠ []) (st : TrainState R) :
    ∃ st', corpus.foldlM (trainLine ext cfg iter) st = .ok st' ∧
      st'.s2t.ttable = st.s2t.ttable ∧
      st'.s2t.counts = (if cfg.final iter then st.s2t.counts
        else st.s2t.counts.bumpSeq (sweepIncrements ext cfg st.s2t.prob corpus)) ∧
      st'.likelihood = st.likelihood + logLikelihood ext cfg st.s2t.prob corpus ∧
      st'.reports = st.reports := by
  induction corpus generalizing st with
  | nil => exact ⟨st, rfl, rfl, by split_ifs <;> rfl, by simp [logLikelihood, pairsOf], rfl⟩
  | cons l corpus ih =>
      obtain ⟨st₁, h₁, ht₁, hc₁, hl₁, hr₁⟩ :=
        trainLine_spec ext cfg iter st l (hne l (List.mem_cons_self l corpus))
      obtain ⟨st', h', ht', hc', hl', hr'⟩ :=
        ih (fun l' hl' => hne l' (List.mem_cons_of_mem l hl')) st₁
      have hprob := prob_eq_of_ttable ht₁
      refine ⟨st', by rw [List.foldlM_cons, h₁]; exact h', ht'.trans ht₁, ?_, ?_, hr'.trans hr₁⟩
      · rw [hc', hc₁, hprob]
        cases cfg.final iter <;> simp [sweepIncrements, pairsOf, UMap.bumpSeq_append]
      · rw [hl', hl₁, hprob]
        simp [logLikelihood, pairsOf, add_assoc]

/-- A pass over a corpus whose lines have non-empty sides: it completes, its
`likelihood` is the log-likelihood of the corpus under the table it started
with, and, before the last pass, its counts grew by exactly the pass's
increments. -/
theorem sweep_spec (iter : Nat) (corpus : List String)
    (hne : ∀ l ∈ corpus, (ext.ReadLine l).1 ≠ [] ∧ (ext.ReadLine l).2 ≠ []) (st : TrainState R) :
    ∃ st', sweep ext cfg corpus iter st = .ok st' ∧
      st'.s2t.ttable = st.s2t.ttable ∧
      st'.s2t.counts = (if cfg.final iter then st.s2t.counts
        else st.s2t.counts.bumpSeq (sweepIncrements ext cfg st.s2t.prob corpus)) ∧
      st'.likelihood = logLikelihood ext cfg st.s2t.prob corpus ∧
      st'.reports = st.reports := by
  obtain ⟨st', h, ht, hc, hl, hr⟩ := lines_spec ext cfg iter corpus hne
    { st with likelihood := 0, denom := 0, lc := 0 }
  exact ⟨st', h, ht, hc, by simpa using hl, hr⟩

end Pass

/-! ## The E-step computes the model's expected counts -/

/-- Every pass over a corpus whose lines have non-empty sides, from any state:
the log-likelihood it accumulates is `Σ_lines Σ_j log Σ_a π(a) T(w_a, trg[j])`
under the table `T` it starts with, and, unless it is the last pass, the
amount it adds to each pair `(e, f)` is the expected count of `(e, f)`. -/
theorem sweep_likelihood_and_counts (ext : Externals ℝ) (cfg : Config ℝ) (corpus : List String)
    (hne : ∀ l ∈ corpus, (ext.ReadLine l).1 ≠ [] ∧ (ext.ReadLine l).2 ≠ [])
    (iter : Nat) (st : TrainState ℝ) :
    ∃ st', sweep ext cfg corpus iter st = .ok st' ∧
      st'.likelihood = logLikelihood ext cfg st.s2t.prob corpus ∧
      (cfg.final iter = false → ∀ e f,
        st'.s2t.counts.cell e f = st.s2t.counts.cell e f + expectedCount ext cfg st.s2t.prob corpus e f) := by
  obtain ⟨st', h, -, hc, hl, -⟩ := sweep_spec ext cfg iter corpus hne st
  refine ⟨st', h, hl, fun hf e f => ?_⟩
  rw [hc, hf, if_neg Bool.false_ne_true, UMap.cell_bumpSeq, sum_sweepIncrements_cell]

theorem sweep_likelihood_and_counts_one_line :
    (∀ l ∈ ["a ||| x"], ((Externals.reading ([1], [2]) : Externals ℝ).ReadLine l).1 ≠ [] ∧
      ((Externals.reading ([1], [2]) : Externals ℝ).ReadLine l).2 ≠ []) ∧
    ∃ st', sweep (Externals.reading ([1], [2])) (Options.defaults : Options ℝ).config ["a ||| x"] 0
        TrainState.init = .ok st' ∧
      st'.likelihood = logLikelihood (Externals.reading ([1], [2])) (Options.defaults : Options ℝ).config
        (TrainState.init : TrainState ℝ).s2t.prob ["a ||| x"] ∧
      ((Options.defaults : Options ℝ).config.final 0 = false → ∀ e f,
        st'.s2t.counts.cell e f = (TrainState.init : TrainState ℝ).s2t.counts.cell e f
          + expectedCount (Externals.reading ([1], [2])) (Options.defaults : Options ℝ).config
            (TrainState.init : TrainState ℝ).s2t.prob ["a ||| x"] e f) :=
  have h : ∀ l ∈ ["a ||| x"], ((Externals.reading ([1], [2]) : Externals ℝ).ReadLine l).1 ≠ [] ∧
      ((Externals.reading ([1], [2]) : Externals ℝ).ReadLine l).2 ≠ [] := by
    simp [Externals.reading]
  ⟨h, sweep_likelihood_and_counts _ _ _ h 0 _⟩

end Cdec
