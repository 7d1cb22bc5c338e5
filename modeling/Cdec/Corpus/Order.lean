import Cdec.Corpus.FilterLength

/-!
# `Cdec.Corpus.Order` — `filter-length.pl` filters line by line

The script decides each line on the line alone, against the mean and the
deviation of the ratios of the whole corpus.  Those are sums, and the
reports are counts and a maximum, so none of them depends on the order of
the lines.

## What is proved

* `filterLength_perm`: on any reordering of a corpus on which the script
  completes, it completes as well.  It prints the same lines, reordered, and
  reports the same numbers.  Only the sentence named for the worst z-score
  may change: among lines of equal largest z-score the report names the
  first (`worst_zscore_reported`), and which line is first depends on the
  order.

The steps: the collected ratios are reordered (`ratios_perm`), so their mean
and deviation are the same (`meanSd_perm`).  Each pass keeps the same counts
(`pass1_perm`, `pass2_perm`), and the largest z-score is a maximum over the
same lines (`argmax_map_perm`).

The model's arithmetic is exact.  Perl adds floating-point numbers, whose
sums depend on their order through rounding.
-/

namespace Cdec.FilterLength

/-- The value of the largest element of a list does not depend on its
order. -/
theorem argmax_map_perm {α β : Type} [LinearOrder β] (f : α → β) {l l' : List α}
    (h : l.Perm l') : (l.argmax f).map f = (l'.argmax f).map f := by
  cases ha : l.argmax f <;> cases ha' : l'.argmax f
  case none.none => rfl
  case none.some b =>
    exact absurd (List.argmax_eq_none.mp ha) (List.ne_nil_of_mem (h.mem_iff.mpr (List.argmax_mem ha')))
  case some.none a =>
    exact absurd (List.argmax_eq_none.mp ha') (List.ne_nil_of_mem (h.mem_iff.mp (List.argmax_mem ha)))
  case some.some a b =>
    exact congrArg some (le_antisymm (List.le_of_mem_argmax (h.mem_iff.mp (List.argmax_mem ha)) ha')
      (List.le_of_mem_argmax (h.mem_iff.mpr (List.argmax_mem ha')) ha))

variable {R : Type} [LinearOrderedField R] [CMath R]

/-- The mean and the deviation of a list of numbers do not depend on its
order. -/
theorem meanSd_perm {xs ys : List R} (h : xs.Perm ys) : meanSd xs = meanSd ys := by
  dsimp only [meanSd]
  rw [h.sum_eq, h.length_eq, (h.map _).sum_eq]

section Perm

variable {corpus corpus' : List String} (hperm : corpus.Perm corpus')
include hperm

/-- The first pass collects the same ratios from a reordered corpus,
reordered. -/
theorem ratios_perm : (ratios R corpus).Perm (ratios R corpus') :=
  (hperm.filter _).map _

/-- The largest z-score among the weighed lines of a reordered corpus. -/
theorem worstLine_perm (lmean lsd : R) :
    (worstLine lmean lsd corpus).map (fun l => zscore lmean lsd (lineLengths l))
      = (worstLine lmean lsd corpus').map fun l => zscore lmean lsd (lineLengths l) :=
  argmax_map_perm _ (hperm.filter _)

omit [LinearOrderedField R] [CMath R] in
/-- The number of lines of a reordered corpus that pass a test. -/
theorem length_filter_perm (p : String → Bool) :
    (corpus.filter p).length = (corpus'.filter p).length :=
  (hperm.filter p).length_eq

/-- The first pass over a reordered corpus counts the same lines and
discards as many. -/
theorem pass1_perm {p1 p1' : Pass1 R} (h1 : corpus.foldlM pass1Line Pass1.init = .ok p1)
    (h1' : corpus'.foldlM pass1Line Pass1.init = .ok p1') :
    p1'.lines = p1.lines ∧ p1'.discard = p1.discard := by
  obtain ⟨hl, -, -, hd⟩ := pass1_spec corpus _ p1 h1
  obtain ⟨hl', -, -, hd'⟩ := pass1_spec corpus' _ p1' h1'
  rw [← length_filter_perm hperm] at hd'
  rw [← hperm.length_eq] at hd' hl'
  exact ⟨hl'.trans hl.symm, by omega⟩

/-- The second pass over a reordered corpus, against the same statistics,
prints the same lines reordered, counts alike, and finds the same worst
z-score. -/
theorem pass2_perm {lmean lsd : R} (hsd : 0 ≤ lsd) {a a' : Nat} {p2 p2' : Pass2 R}
    (h2 : corpus.foldlM (pass2Line lmean lsd) (Pass2.init a) = .ok p2)
    (h2' : corpus'.foldlM (pass2Line lmean lsd) (Pass2.init a') = .ok p2') :
    p2'.printed.Perm p2.printed ∧ p2'.lines = p2.lines ∧
      p2'.lines_printed = p2.lines_printed ∧ p2'.zviol = p2.zviol ∧ p2'.worstz = p2.worstz := by
  obtain ⟨hl, hp, hc⟩ := pass2_spec corpus _ p2 h2
  obtain ⟨hl', hp', hc'⟩ := pass2_spec corpus' _ p2' h2'
  have hz := pass2_zviol corpus _ p2 h2
  have hz' := pass2_zviol corpus' _ p2' h2'
  obtain ⟨hw, -⟩ := pass2_worst hsd corpus [] _ p2 ⟨rfl, rfl⟩ h2
  obtain ⟨hw', -⟩ := pass2_worst hsd corpus' [] _ p2' ⟨rfl, rfl⟩ h2'
  simp only [Pass2.init, zero_add, List.nil_append] at hl hl' hp hp' hc hc' hz hz' hw hw'
  exact ⟨by rw [hp, hp']; exact (hperm.filter _).symm, by rw [hl, hl', hperm.length_eq],
    by rw [hc, hc', length_filter_perm hperm], by rw [hz, hz', length_filter_perm hperm],
    by rw [hw, hw', worstLine_perm hperm]⟩

/-- On a reordering of a corpus on which the script completes, it completes
too, prints the same lines reordered, and reports the same numbers; only the
sentence of the worst z-score may differ, among lines of equal z-score. -/
theorem filterLength_perm {res : Result ℝ} (h : filterLength corpus = .ok res) :
    ∃ res' : Result ℝ, filterLength corpus' = .ok res' ∧ res'.printed.Perm res.printed ∧
      res' = { res with printed := res'.printed, worst := res'.worst } := by
  obtain ⟨p1, p2, h1, hne, h2, rfl⟩ := filterLength_inv h
  have hm := meanSd_perm (ratios_perm (R := ℝ) hperm)
  have hf : ∀ l ∈ corpus', (splitBars l.toList).length = 2 := fun l hl =>
    let ⟨_, _, hl⟩ := foldlM_ok_mem corpus _ p1 h1 l (hperm.mem_iff.mpr hl)
    pass1Line_format hl
  have hsd : (meanSd (ratios ℝ corpus)).2 ≠ 0 := fun h0 => by
    rw [filterLength_error (fun l hl => hf l (hperm.mem_iff.mp hl)) (.inr h0)] at h
    cases h
  obtain ⟨res', h'⟩ := filterLength_ok hf
    (fun h0 => hne (List.perm_nil.mp (by rw [← h0]; exact ratios_perm hperm))) (hm ▸ hsd)
  obtain ⟨p1', p2', h1', -, h2', rfl⟩ := filterLength_inv h'
  rw [← hm] at h2' h'
  obtain ⟨hl1, hd1⟩ := pass1_perm hperm h1 h1'
  have hsd₀ : 0 ≤ (meanSd (ratios ℝ corpus)).2 := Real.sqrt_nonneg _
  obtain ⟨hp, hl2, hc2, hz2, hw2⟩ := pass2_perm hperm hsd₀ h2 h2'
  refine ⟨_, h', hp, ?_⟩
  simp only [Result.mk.injEq, hl1, hd1, hl2, hc2, hz2, hw2, and_self]

end Perm

theorem filterLength_perm_two_pairs :
    let corpus := ["a b c d e f g ||| a b c d e f g\n", "a b c d e f g a b c d e f g ||| a b c d e f g\n"]
    let corpus' := ["a b c d e f g a b c d e f g ||| a b c d e f g\n", "a b c d e f g ||| a b c d e f g\n"]
    corpus.Perm corpus' ∧ ∃ res : Result ℝ, filterLength corpus = .ok res ∧
      ∃ res' : Result ℝ, filterLength corpus' = .ok res' ∧ res'.printed.Perm res.printed ∧
        res' = { res with printed := res'.printed, worst := res'.worst } := by
  intro corpus corpus'
  have h1 : lineLengths "a b c d e f g ||| a b c d e f g\n" = (7, 7) := by decide
  have h2 : lineLengths "a b c d e f g a b c d e f g ||| a b c d e f g\n" = (14, 7) := by decide
  obtain ⟨l1, c1⟩ : (lograt (7, 7) : ℝ) = 0 ∧ Collected ℝ (7, 7) :=
    collected_same (by norm_num) (by norm_num)
  obtain ⟨l2, c2⟩ : (lograt (14, 7) : ℝ) = Real.log 2 ∧ Collected ℝ (14, 7) :=
    collected_double (k := 7) (by norm_num) (by norm_num)
  have hr : ratios ℝ corpus = [0, Real.log 2] := by
    simp only [corpus, ratios, List.filter_cons, h1, h2, c1, c2, decide_True, if_true,
      List.filter_nil, List.map_cons, List.map_nil, l1, l2]
  have hf : ∀ l ∈ corpus, (splitBars l.toList).length = 2 := by decide
  have hperm : corpus.Perm corpus' := List.Perm.swap _ _ _
  obtain ⟨res, h⟩ := filterLength_ok_zero_log_two hf hr
  exact ⟨hperm, res, h, filterLength_perm hperm h⟩

end Cdec.FilterLength
