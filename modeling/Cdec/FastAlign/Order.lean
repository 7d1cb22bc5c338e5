import Cdec.FastAlign.Report

/-!
# `Cdec.FastAlign.Order` — training does not depend on the order of the lines

`main` reads the corpus line by line (line 93) and adds each line's
posteriors to the counts as it goes (lines 173-176).  The counts are sums, so
the order of the lines changes the order of the additions and nothing else.
The M-step reads a row only through its entries, whatever order the hash map
iterates them in (lines 195-200).

## What is proved

* `trainRun_perm`: two runs of the same number of passes over two orders of
  one corpus both complete.  They end with the same probabilities and the same
  `mean_srclen_multiplier`, and they report the same statistics pass by pass.

The run invariant is `SameModel`: between passes both counts are empty, and
the probabilities, the length statistics and the reports agree.  One pass
keeps it (`iteration_sameModel`).  The increments of the two passes are
permutations of each other, so every cell of the counts is the same sum and
the same cells exist (`bumpSeq_perm`).  Both M-steps then give the same
probabilities (`prob_mStep_congr`), though the two tables hold their entries
in different orders.

## What it is not

The model's arithmetic is exact.  The C++ adds `double`s, whose sums depend on
their order through rounding, so two orders of a corpus give results that
agree up to rounding, not bit for bit.  The alignments the last pass writes
and its Viterbi edges follow the lines, and the dump of the table follows the
order of its entries; neither is compared.

## The hypothesis

The lines have non-empty sides.  Otherwise the run stops at the first line
that has not (`trainRun_error_iff`), and which line that is depends on the
order.
-/

namespace Cdec

variable {R : Type} [LinearOrderedField R]

/-! ## Rows read through their entries -/

namespace UMap

/-- Two maps of the same cells and entries find rows of the same entries
under a key both hold. -/
theorem find?_row_congr {c c' : UMap (UMap R)} (hcell : ∀ e f, c.cell e f = c'.cell e f)
    (hmem : ∀ e f, c.Mem e f ↔ c'.Mem e f) {e : WordID} {row row' : UMap R}
    (hr : c.find? e = some row) (hr' : c'.find? e = some row') (f : WordID) :
    row.find? f = row'.find? f := by
  have hc := hcell e f
  have hm := hmem e f
  simp only [cell, Mem, hr, hr', Option.some_bind, Option.some.injEq, exists_eq_left',
    ← find?_isSome] at hc hm
  revert hc hm
  cases row.find? f <;> cases row'.find? f <;> simp

omit [LinearOrderedField R] in
/-- A row found under a key whose cells the other map lacks has no entries. -/
theorem find?_row_none {c c' : UMap (UMap R)} {e : WordID} (hmem : ∀ f, c.Mem e f → c'.Mem e f)
    {row : UMap R} (hr : c.find? e = some row) (hr' : c'.find? e = none) (f : WordID) :
    row.find? f = none := by
  rw [← Option.not_isSome_iff_eq_none, find?_isSome]
  intro hf
  obtain ⟨_, h, -⟩ := hmem f ⟨row, hr, hf⟩
  rw [hr'] at h
  cases h

/-- Rewriting every row by a function of the row's entries, as both M-steps
do, gives the same entries on two maps of the same cells and entries. -/
theorem find?_mapVal_rows_congr {F : UMap R → WordID → R → R}
    (hF : ∀ cpd cpd' : UMap R, (∀ k, cpd.find? k = cpd'.find? k) → F cpd = F cpd')
    {c c' : UMap (UMap R)} (hcell : ∀ e f, c.cell e f = c'.cell e f)
    (hmem : ∀ e f, c.Mem e f ↔ c'.Mem e f) (e f : WordID) :
    ((c.mapVal fun _ cpd => cpd.mapVal (F cpd)).find? e).bind (·.find? f)
      = ((c'.mapVal fun _ cpd => cpd.mapVal (F cpd)).find? e).bind (·.find? f) := by
  simp only [find?_mapVal]
  cases hr : c.find? e with
  | none =>
    cases hr' : c'.find? e with
    | none => rfl
    | some row' => simp [find?_row_none (fun f => (hmem e f).mpr) hr' hr f]
  | some row =>
    cases hr' : c'.find? e with
    | none => simp [find?_row_none (fun f => (hmem e f).mp) hr hr' f]
    | some row' =>
      have h := find?_row_congr hcell hmem hr hr'
      simp [h f, hF row row' h]

/-- Two orders of one list of increments give the same cells and the same
entries. -/
theorem bumpSeq_perm (m : UMap (UMap R)) {incs incs' : List (WordID × WordID × R)}
    (h : incs.Perm incs') :
    (∀ e f, (m.bumpSeq incs).cell e f = (m.bumpSeq incs').cell e f) ∧
      ∀ e f, (m.bumpSeq incs).Mem e f ↔ (m.bumpSeq incs').Mem e f :=
  ⟨fun e f => by rw [cell_bumpSeq, cell_bumpSeq, (h.map _).sum_eq],
    fun e f => by simp only [mem_bumpSeq, h.mem_iff]⟩

end UMap

variable [CMath R]

/-- The M-step reads the counts only through their cells and which cells
exist. -/
theorem prob_mStep_congr (ext : Externals R) (cfg : Config R) {t t' : TTable R}
    (hcell : ∀ e f, t.counts.cell e f = t'.counts.cell e f)
    (hmem : ∀ e f, t.counts.Mem e f ↔ t'.counts.Mem e f) :
    (mStep ext cfg t).prob = (mStep ext cfg t').prob := by
  funext e f
  unfold mStep TTable.prob
  congr 1
  split_ifs
  · exact UMap.find?_mapVal_rows_congr (F := fun cpd _ v => CMath.exp
      (ext.digamma (v + cfg.alpha) - ext.digamma (cpd.sum fun _ v => v + cfg.alpha)))
      (fun _ _ h => by simp only [UMap.sum_congr_find? h]) hcell hmem e f
  · exact UMap.find?_mapVal_rows_congr (F := fun cpd _ v => v / TTable.total cpd)
      (fun _ _ h => by simp only [TTable.total, UMap.sum_congr_find? h]) hcell hmem e f

/-! ## Two orders of one corpus -/

section Perm

variable (ext : Externals R) (cfg : Config R) {corpus corpus' : List String}
  (hperm : corpus.Perm corpus')
include hperm

omit [LinearOrderedField R] [CMath R] in
/-- A sum over the sentence pairs of a corpus does not depend on the order of
its lines. -/
theorem sum_pairsOf_perm {M : Type} [AddCommMonoid M] (g : List WordID × List WordID → M) :
    ((pairsOf ext cfg corpus).map g).sum = ((pairsOf ext cfg corpus').map g).sum :=
  ((hperm.map _).map g).sum_eq

/-- Two orders of a corpus give the same increments, in another order. -/
theorem sweepIncrements_perm (T : WordID → WordID → R) :
    (sweepIncrements ext cfg T corpus).Perm (sweepIncrements ext cfg T corpus') :=
  (hperm.map _).flatMap_right _

/-- The states of two runs between passes: both counts are empty, and the
probabilities, the length statistics and the reports agree. -/
structure SameModel (st st' : TrainState R) : Prop where
  counts_empty : st.s2t.counts = UMap.empty
  counts_empty' : st'.s2t.counts = UMap.empty
  prob_eq : st.s2t.prob = st'.s2t.prob
  tot_len_ratio_eq : st.tot_len_ratio = st'.tot_len_ratio
  mean_srclen_multiplier_eq : st.mean_srclen_multiplier = st'.mean_srclen_multiplier
  reports_eq : st.reports = st'.reports

/-- One pass over each order of a corpus of non-empty sides keeps
`SameModel`. -/
theorem iteration_sameModel
    (hne : ∀ l ∈ corpus, (ext.ReadLine l).1 ≠ [] ∧ (ext.ReadLine l).2 ≠ [])
    (n : Nat) {st st' : TrainState R} (hs : SameModel st st') :
    ∃ st₁ st₁', iteration ext cfg corpus n st = .ok st₁ ∧
      iteration ext cfg corpus' n st' = .ok st₁' ∧ SameModel st₁ st₁' := by
  obtain ⟨s, h, htt, hc, hl, hr⟩ := sweep_spec ext cfg n corpus hne st
  obtain ⟨s', h', htt', hc', hl', hr'⟩ :=
    sweep_spec ext cfg n corpus' (fun l hl => hne l (hperm.mem_iff.mpr hl)) st'
  obtain ⟨hlc, htot, hm⟩ := lines_lengths corpus _ s h
  obtain ⟨hlc', htot', hm'⟩ := lines_lengths corpus' _ s' h'
  dsimp only at hlc htot hm hlc' htot' hm'
  have hsum := sum_pairsOf_perm (M := R) ext cfg hperm
  refine ⟨_, _, iteration_of_sweep h, iteration_of_sweep h', ?_⟩
  constructor
  case counts_empty =>
    exact endPass_counts_empty _ _ _ _ fun hf => by rw [hc, if_pos hf, hs.counts_empty]
  case counts_empty' =>
    exact endPass_counts_empty _ _ _ _ fun hf => by rw [hc', if_pos hf, hs.counts_empty']
  case prob_eq =>
    rw [endPass_s2t, endPass_s2t]
    split_ifs with hf
    · rw [prob_eq_of_ttable htt, prob_eq_of_ttable htt', hs.prob_eq]
    · rw [if_neg hf, hs.counts_empty, hs.prob_eq] at hc
      rw [if_neg hf, hs.counts_empty'] at hc'
      obtain ⟨hcell, hmem⟩ := UMap.bumpSeq_perm UMap.empty
        (sweepIncrements_perm ext cfg hperm st'.s2t.prob)
      exact prob_mStep_congr ext cfg (by rw [hc, hc']; exact hcell) (by rw [hc, hc']; exact hmem)
  case tot_len_ratio_eq =>
    rw [endPass_tot_len_ratio, endPass_tot_len_ratio, htot, htot', hs.tot_len_ratio_eq, hsum]
  case mean_srclen_multiplier_eq =>
    rw [endPass_mean_srclen_multiplier, endPass_mean_srclen_multiplier]
    split_ifs
    · rw [htot, htot', hlc, hlc', hs.tot_len_ratio_eq, hsum, hperm.length_eq]
    · rw [hm, hm', hs.mean_srclen_multiplier_eq]
  case reports_eq =>
    rw [endPass_reports, endPass_reports, hr, hr', hl, hl', sweep_denom h, sweep_denom h',
      hs.reports_eq, hs.prob_eq, logLikelihood, logLikelihood, hsum, hsum]

/-- Two runs of `n` passes over two orders of one corpus of non-empty sides
both complete, with the same probabilities, the same
`mean_srclen_multiplier` and the same reports. -/
theorem trainRun_perm
    (hne : ∀ l ∈ corpus, (ext.ReadLine l).1 ≠ [] ∧ (ext.ReadLine l).2 ≠ []) (n : Nat) :
    ∃ st st', trainRun ext cfg corpus n = .ok st ∧ trainRun ext cfg corpus' n = .ok st' ∧
      st.s2t.prob = st'.s2t.prob ∧ st.mean_srclen_multiplier = st'.mean_srclen_multiplier ∧
      st.reports = st'.reports := by
  suffices h : ∃ st st', trainRun ext cfg corpus n = .ok st ∧
      trainRun ext cfg corpus' n = .ok st' ∧ SameModel st st' by
    obtain ⟨st, st', h, h', hs⟩ := h
    exact ⟨st, st', h, h', hs.prob_eq, hs.mean_srclen_multiplier_eq, hs.reports_eq⟩
  induction n with
  | zero => exact ⟨_, _, rfl, rfl, ⟨rfl, rfl, rfl, rfl, rfl, rfl⟩⟩
  | succ n ih =>
    obtain ⟨st, st', h, h', hs⟩ := ih
    obtain ⟨st₁, st₁', h₁, h₁', hs₁⟩ := iteration_sameModel ext cfg hperm hne n hs
    exact ⟨st₁, st₁', by rw [trainRun_succ, h]; exact h₁, by rw [trainRun_succ, h']; exact h₁',
      hs₁⟩

end Perm

theorem trainRun_perm_swapped_lines :
    let ext : Externals ℝ := { Externals.reading ([1, 2], [3]) with
      ReadLine := fun l => if l = "c d ||| y" then ([4], [5, 6]) else ([1, 2], [3]) }
    let cfg := (Options.defaults : Options ℝ).config
    let corpus := ["a b ||| x", "c d ||| y"]
    let corpus' := ["c d ||| y", "a b ||| x"]
    corpus.Perm corpus' ∧ (∀ l ∈ corpus, (ext.ReadLine l).1 ≠ [] ∧ (ext.ReadLine l).2 ≠ []) ∧
    ∃ st st', trainRun ext cfg corpus cfg.passes = .ok st ∧
      trainRun ext cfg corpus' cfg.passes = .ok st' ∧
      st.s2t.prob = st'.s2t.prob ∧ st.mean_srclen_multiplier = st'.mean_srclen_multiplier ∧
      st.reports = st'.reports := by
  intro ext cfg corpus corpus'
  have hperm : corpus.Perm corpus' := List.Perm.swap _ _ _
  have hne : ∀ l ∈ corpus, (ext.ReadLine l).1 ≠ [] ∧ (ext.ReadLine l).2 ≠ [] := by
    simp [ext, corpus]
  exact ⟨hperm, hne, trainRun_perm ext cfg hperm hne cfg.passes⟩

end Cdec
