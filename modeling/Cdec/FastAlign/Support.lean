import Cdec.FastAlign.Ascent

/-!
# `Cdec.FastAlign.Support` — the pairs the table holds

Every pass before the last adds a posterior to the counts for each candidate
of each target position (lines 173-176), even a posterior of `0`, and the
M-step keeps exactly the entries of the counts (lines 195-200).  So the table
holds an entry for a pair of words exactly when they occur in one sentence
pair: the target word on the target side, and the source word on the source
side or the NULL word, when NULL is on.

## What is proved

* `trainRun_support`: after any number of passes the table holds exactly the
  co-occurring pairs (`CoOccurs`), once a pass has re-estimated it, and no
  pair before.  With `-i 1` the only pass is the last, so the table stays
  empty: the test set is scored with `1e-9` for every pair and the dump
  prints nothing.

* `main_dumps_row_maxima`: when `BEAM_THRESHOLD` is below `1`, the dump of
  `main` prints, for every row of the final table, every entry at the row's
  maximum when that maximum is positive.  At `1` the threshold is the maximum
  itself and the strict test of line 274 drops it
  (`dump_misses_row_maximum_at_zero_beam`).  `beamThreshold_lt_one_iff`: in
  exact arithmetic `BEAM_THRESHOLD = 10^b` is below `1` exactly when
  `--beam_threshold` `b` is negative.  In doubles `pow(10.0, b)` is `1.0`
  already for `b` in `(-2.4e-17, 0)`, and there the maximum is dropped as at
  `0`.

The step is `mem_counts_iff`: the counts of a pass hold exactly the
co-occurring pairs, whatever the table the pass started from.  The run
invariant adds that the counts are empty between passes.  For the dump,
`rowMax_eq`: the running maximum of lines 269-271, seeded with `-1`, ends at
the row's largest value once that is at least `-1`.

## The hypotheses

The lines have non-empty sides, or the run stops at line 111.  A row's
maximum is positive: a row of counts all `0` normalizes to values `0`, and
the test `0 > 0` leaves only its Viterbi edges to be printed.
-/

namespace Cdec

variable {R : Type} [LinearOrderedField R] [CMath R]

/-- `f` is a target word of a sentence pair of the corpus, as a pass reads
it, and `e` a source word of the same pair or, with NULL on, the NULL word. -/
def CoOccurs (ext : Externals R) (cfg : Config R) (corpus : List String) (e f : WordID) : Prop :=
  ∃ p ∈ pairsOf ext cfg corpus, f ∈ p.2 ∧ (e ∈ p.1 ∨ (cfg.use_null = true ∧ e = ext.kNULL))

/-! ## The words a pass pairs -/

/-- The words at the target positions `0 .. J-1` are the target words. -/
theorem exists_range_getD {trg : List WordID} {f : WordID} :
    (∃ j ∈ List.range trg.length, trg.getD j 0 = f) ↔ f ∈ trg := by
  simp only [List.mem_range]
  rw [List.mem_iff_getElem]
  constructor
  · rintro ⟨j, hj, rfl⟩
    exact ⟨j, hj, (List.getD_eq_getElem _ _ hj).symm⟩
  · rintro ⟨j, hj, rfl⟩
    exact ⟨j, hj, List.getD_eq_getElem _ _ hj⟩

/-- The words at the source positions `1 .. I` are the source words. -/
theorem exists_range'_getD {src : List WordID} {e : WordID} :
    (∃ i ∈ List.range' 1 src.length, src.getD (i - 1) 0 = e) ↔ e ∈ src := by
  simp only [List.mem_range'_1]
  rw [List.mem_iff_getElem]
  constructor
  · rintro ⟨i, hi, rfl⟩
    exact ⟨i - 1, by omega, (List.getD_eq_getElem _ _ _).symm⟩
  · rintro ⟨k, hk, rfl⟩
    exact ⟨k + 1, by omega, List.getD_eq_getElem _ _ hk⟩

/-- The words of the candidates of a target position: the NULL word when it
is on, and every source word. -/
theorem exists_candidate_word {kNULL : WordID} {cfg : Config R} {src : List WordID} {J j : Nat}
    {e : WordID} :
    (∃ c ∈ candidates kNULL cfg src J j, c.1 = e) ↔
      e ∈ src ∨ (cfg.use_null = true ∧ e = kNULL) := by
  rw [← exists_range'_getD]
  simp only [candidates, List.mem_append, List.mem_map]
  constructor
  · rintro ⟨c, hc | ⟨i, hi, rfl⟩, rfl⟩
    · split_ifs at hc with h
      · exact .inr ⟨h, by rw [List.mem_singleton.mp hc]⟩
      · cases hc
    · exact .inl ⟨i, hi, rfl⟩
  · rintro (⟨i, hi, rfl⟩ | ⟨h, rfl⟩)
    · exact ⟨_, .inr ⟨i, hi, rfl⟩, rfl⟩
    · exact ⟨_, .inl (by rw [if_pos h]; exact List.mem_singleton_self _), rfl⟩

variable (ext : Externals R) (cfg : Config R) (corpus : List String)

/-- The counts of a pass hold exactly the co-occurring pairs, whatever the
table the pass started from. -/
theorem mem_counts_iff (T : WordID → WordID → R) (e f : WordID) :
    (UMap.empty.bumpSeq (sweepIncrements ext cfg T corpus)).Mem e f ↔ CoOccurs ext cfg corpus e f := by
  rw [mem_counts]
  refine exists_congr fun p => and_congr_right fun _ => ⟨?_, ?_⟩
  · rintro ⟨j, hj, c, hc, rfl, rfl⟩
    exact ⟨exists_range_getD.mp ⟨j, hj, rfl⟩, exists_candidate_word.mp ⟨c, hc, rfl⟩⟩
  · rintro ⟨hf, he⟩
    obtain ⟨j, hj, rfl⟩ := exists_range_getD.mpr hf
    obtain ⟨c, hc, rfl⟩ := (exists_candidate_word (J := p.2.length) (j := j)).mpr he
    exact ⟨j, hj, c, hc, rfl, rfl⟩

/-- A run over a corpus of non-empty sides completes, whatever the number of
passes. -/
theorem trainRun_ok (hne : ∀ l ∈ corpus, (ext.ReadLine l).1 ≠ [] ∧ (ext.ReadLine l).2 ≠ []) :
    ∀ n, ∃ st, trainRun ext cfg corpus n = .ok st
  | 0 => ⟨_, rfl⟩
  | n + 1 => by
    obtain ⟨st, h⟩ := trainRun_ok hne n
    obtain ⟨s, hs, -⟩ := sweep_spec ext cfg n corpus hne st
    exact ⟨_, by rw [trainRun_succ, h]; exact iteration_of_sweep hs⟩

/-! ## The run -/

/-- After `n` passes over a corpus of non-empty sides the table holds exactly
the co-occurring pairs, if one of the passes was not the last, and no pair
otherwise. -/
theorem trainRun_support
    (hne : ∀ l ∈ corpus, (ext.ReadLine l).1 ≠ [] ∧ (ext.ReadLine l).2 ≠ []) (n : Nat) :
    ∃ st, trainRun ext cfg corpus n = .ok st ∧ ∀ e f,
      st.s2t.ttable.Mem e f ↔ (∃ i < n, cfg.final i = false) ∧ CoOccurs ext cfg corpus e f := by
  suffices h : ∃ st, trainRun ext cfg corpus n = .ok st ∧ st.s2t.counts = UMap.empty ∧ ∀ e f,
      st.s2t.ttable.Mem e f ↔ (∃ i < n, cfg.final i = false) ∧ CoOccurs ext cfg corpus e f by
    obtain ⟨st, h, -, hm⟩ := h
    exact ⟨st, h, hm⟩
  induction n with
  | zero => exact ⟨_, rfl, rfl, fun e f => by simp [TrainState.init, TTable.empty, UMap.not_mem_empty]⟩
  | succ n ih =>
    obtain ⟨st, h, hc, hm⟩ := ih
    obtain ⟨s, hs, htt, hcs, -, -⟩ := sweep_spec ext cfg n corpus hne st
    refine ⟨_, by rw [trainRun_succ, h]; exact iteration_of_sweep hs,
      endPass_counts_empty _ _ _ _ fun hf => by rw [hcs, if_pos hf, hc], fun e f => ?_⟩
    rw [endPass_s2t]
    split_ifs with hf
    · rw [htt, hm]
      refine and_congr_left' ⟨fun ⟨i, hi, h⟩ => ⟨i, by omega, h⟩, fun ⟨i, hi, h⟩ => ⟨i, ?_, h⟩⟩
      refine Nat.lt_of_le_of_ne (Nat.le_of_lt_succ hi) fun hin => ?_
      rw [hin, hf] at h
      cases h
    · rw [mem_mStep, hcs, if_neg hf, hc, mem_counts_iff]
      exact (and_iff_right ⟨n, n.lt_succ_self, by simpa using hf⟩).symm

theorem trainRun_support_two_lines :
    let ext : Externals ℝ := Externals.reading ([1, 2], [3])
    let cfg := (Options.defaults : Options ℝ).config
    let corpus := ["a b ||| x", "c d ||| y"]
    (∀ l ∈ corpus, (ext.ReadLine l).1 ≠ [] ∧ (ext.ReadLine l).2 ≠ []) ∧
    ∃ st, trainRun ext cfg corpus cfg.passes = .ok st ∧ ∀ e f,
      st.s2t.ttable.Mem e f ↔ (∃ i < cfg.passes, cfg.final i = false) ∧ CoOccurs ext cfg corpus e f := by
  intro ext cfg corpus
  have hne : ∀ l ∈ corpus, (ext.ReadLine l).1 ≠ [] ∧ (ext.ReadLine l).2 ≠ [] := by
    simp [ext, corpus, Externals.reading]
  exact ⟨hne, trainRun_support ext cfg corpus hne cfg.passes⟩

/-! ## The row maxima the dump prints -/

section Dump

variable {R : Type} [LinearOrderedField R]

/-- The running maximum of lines 269-271 ends at least at its seed and at
every value it has seen. -/
theorem le_foldl_rowMax (l : List (WordID × R)) (a : R) :
    a ≤ l.foldl (fun m x => if x.2 > m then x.2 else m) a ∧
      ∀ x ∈ l, x.2 ≤ l.foldl (fun m x => if x.2 > m then x.2 else m) a := by
  induction l generalizing a with
  | nil => simp
  | cons y l ih =>
    obtain ⟨h₁, h₂⟩ := ih (if y.2 > a then y.2 else a)
    have hy : a ≤ (if y.2 > a then y.2 else a) ∧ y.2 ≤ (if y.2 > a then y.2 else a) := by
      split_ifs with h
      · exact ⟨h.le, le_rfl⟩
      · exact ⟨le_rfl, not_lt.mp h⟩
    refine ⟨hy.1.trans h₁, ?_⟩
    rintro x (_ | ⟨_, hx⟩)
    exacts [hy.2.trans h₁, h₂ x hx]

/-- The running maximum ends at most at any bound of its seed and its
values. -/
theorem foldl_rowMax_le (l : List (WordID × R)) {a v : R} (ha : a ≤ v) (hl : ∀ x ∈ l, x.2 ≤ v) :
    l.foldl (fun m x => if x.2 > m then x.2 else m) a ≤ v := by
  induction l generalizing a with
  | nil => exact ha
  | cons y l ih =>
    refine ih ?_ fun x hx => hl x (List.mem_cons_of_mem _ hx)
    dsimp only
    split_ifs
    exacts [hl y (List.mem_cons_self _ _), ha]

/-- `max_p` is the largest value of a row whose largest value is at least
`-1`, the seed of line 269. -/
theorem rowMax_eq {cpd : Word2Double R} {f : WordID} {v : R} (hv : (f, v) ∈ cpd.entries)
    (hmax : ∀ x ∈ cpd.entries, x.2 ≤ v) (h1 : -1 ≤ v) : rowMax cpd = v :=
  le_antisymm (foldl_rowMax_le _ h1 hmax) ((le_foldl_rowMax _ _).2 _ hv)

/-- Below a `BEAM_THRESHOLD` of `1` the dump prints every entry at its row's
maximum, when that is positive. -/
theorem mem_dumpEntries_of_max {cfg : Config R} (hb : cfg.BEAM_THRESHOLD < 1) {t : TTable R}
    {viterbi : Word2Word2Double R} {e f : WordID} {v : R} {cpd : Word2Double R}
    (hr : (e, cpd) ∈ t.ttable.entries) (hv : (f, v) ∈ cpd.entries)
    (hmax : ∀ x ∈ cpd.entries, x.2 ≤ v) (hpos : 0 < v) :
    (e, f, v) ∈ dumpEntries cfg t viterbi := by
  refine mem_dumpEntries.mpr ⟨cpd, hr, hv, .inl ?_⟩
  rw [rowMax_eq hv hmax (neg_one_lt_zero.trans hpos).le]
  exact mul_lt_of_lt_one_right hpos hb

end Dump

/-- `BEAM_THRESHOLD = pow(10.0, beam_threshold)` (line 64) is below `1`
exactly at a negative `--beam_threshold`, in exact arithmetic. -/
theorem beamThreshold_lt_one_iff (o : Options ℝ) : o.config.BEAM_THRESHOLD < 1 ↔ o.beam_threshold < 0 :=
  ⟨fun h => not_le.mp fun hb => (Real.one_le_rpow (by norm_num) hb).not_lt h,
    Real.rpow_lt_one_of_one_lt_of_neg (by norm_num)⟩

/-- When `main` writes parameters with a `BEAM_THRESHOLD` below `1`, its dump
prints, for every row of the final table, the line of every entry at the
row's maximum, when that maximum is positive. -/
theorem main_dumps_row_maxima (ext : Externals ℝ) (o : Options ℝ) {out : List (Out ℝ)}
    {reports : List (Report ℝ)} (h : main ext o = .ok (out, reports))
    (hb : o.config.BEAM_THRESHOLD < 1) (ho : o.output_parameters = true) :
    ∃ st, trainRun ext o.config (ext.ReadFile (o.input.getD "")) o.config.passes = .ok st ∧
      ∀ e cpd f v, (e, cpd) ∈ st.s2t.ttable.entries → (f, v) ∈ cpd.entries →
        (∀ x ∈ cpd.entries, x.2 ≤ v) → 0 < v → dumpLine ext (e, f, v) <:+: out := by
  obtain ⟨_, -, h⟩ := bind_ok.mp h
  obtain ⟨st, hst, h⟩ := bind_ok.mp h
  refine ⟨st, hst, fun e cpd f v hr hv hmax hpos => ?_⟩
  have hmem : (e, f, v) ∈ dumpEntries o.config st.s2t st.s2t_viterbi :=
    mem_dumpEntries_of_max hb hr hv hmax hpos
  have hw : o.config.write_alignments = false := by simp [Options.config, ho]
  cases h
  simp only [afterTraining, hw, Bool.false_eq_true, if_false]
  exact (List.infix_of_mem_flatten (List.mem_map_of_mem _ hmem)).trans (List.suffix_append _ _).isInfix

theorem main_dumps_row_maxima_one_line :
    let ext : Externals ℝ := { Externals.reading ([1, 2], [3]) with ReadFile := fun _ => ["a b ||| x"] }
    let o : Options ℝ := { Options.defaults with input := some "corpus", output_parameters := true }
    ∃ out reports, main ext o = .ok (out, reports) ∧ o.config.BEAM_THRESHOLD < 1 ∧
      o.output_parameters = true ∧
    ∃ st, trainRun ext o.config (ext.ReadFile (o.input.getD "")) o.config.passes = .ok st ∧
      ∀ e cpd f v, (e, cpd) ∈ st.s2t.ttable.entries → (f, v) ∈ cpd.entries →
        (∀ x ∈ cpd.entries, x.2 ≤ v) → 0 < v → dumpLine ext (e, f, v) <:+: out := by
  intro ext o
  have hv : o.validate = .ok () := validate_of_default_alpha o rfl rfl rfl
  obtain ⟨st, hst⟩ := trainRun_ok ext o.config (ext.ReadFile (o.input.getD ""))
    (by simp [ext, Externals.reading]) o.config.passes
  have h : main ext o = .ok (afterTraining ext o.config st, st.reports) := by
    simp only [main, hv, hst, ok_bind]
    rfl
  have hb : o.config.BEAM_THRESHOLD < 1 :=
    (beamThreshold_lt_one_iff o).mpr (by norm_num [o, Options.defaults])
  exact ⟨_, _, h, hb, rfl, main_dumps_row_maxima ext o h hb rfl⟩

end Cdec
