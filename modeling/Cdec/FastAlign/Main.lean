import Cdec.FastAlign.Score
import Cdec.FastAlign.Dump

/-!
# `Cdec.FastAlign.Main` — `main` of `fast_align.cc`

`main` checks its options, trains for `ITERATIONS` passes, scores the test
set when one is given, and, when it writes parameters instead of alignments,
dumps the table.  It aborts with a message on a bad option or a line with an
empty side.

`trainRun_succ` unrolls the training loop one pass at a time; it is how every
statement about a whole run is proved, by induction on the number of passes.
-/

namespace Cdec

variable {R : Type} [LinearOrderedField R] [CMath R]

/-- Lines 202-278, once training is done: the test set's pairs, alignments
and scores, then the dump unless alignments are written. -/
def afterTraining (ext : Externals R) (cfg : Config R) (st : TrainState R) : List (Out R) :=
  let sc : ScoreState R := ⟨st.unnormed_a_i, 0, st.out⟩
  let sc := if cfg.testset.isEmpty then sc
    else scoreTestset ext cfg st.s2t st.mean_srclen_multiplier sc (ext.ReadFile cfg.testset)
  if cfg.write_alignments then sc.out else sc.out ++ dump ext cfg st.s2t st.s2t_viterbi

/-- `main`, lines 56-280: the message of an abort, or what it writes to
`cout` and the reports it writes to `cerr`. -/
def main (ext : Externals R) (o : Options R) : Except String (List (Out R) × List (Report R)) := do
  o.validate
  let cfg := o.config
  let st ← trainRun ext cfg (ext.ReadFile (o.input.getD "")) cfg.passes
  pure (afterTraining ext cfg st, st.reports)

theorem trainRun_zero (ext : Externals R) (cfg : Config R) (corpus : List String) :
    trainRun ext cfg corpus 0 = .ok TrainState.init := rfl

/-- The first `n + 1` passes are the first `n`, then pass `n`. -/
theorem trainRun_succ (ext : Externals R) (cfg : Config R) (corpus : List String) (n : Nat) :
    trainRun ext cfg corpus (n + 1)
      = trainRun ext cfg corpus n >>= iteration ext cfg corpus n := by
  unfold trainRun
  rw [List.range_succ, List.foldlM_append]
  simp only [List.foldlM_cons, List.foldlM_nil, bind_pure]

theorem iteration_of_sweep {ext : Externals R} {cfg : Config R} {corpus : List String}
    {iter : Nat} {st st' : TrainState R} (h : sweep ext cfg corpus iter st = .ok st') :
    iteration ext cfg corpus iter st = .ok (endPass ext cfg iter st') := by
  rw [iteration, h]
  rfl

end Cdec
