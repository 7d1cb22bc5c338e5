import Cdec.FastAlign.Main

/-!
# `Cdec.FastAlign.Reverse` — `--reverse` against a corpus with its sides exchanged

`main` handles `--reverse` by exchanging the two sides of a pair as soon as
it has read it (lines 108 and 213).  The flag is read in one other place:
the order of the two numbers of an alignment link (lines 164-167 and
247-250).  So a run with the flag on a corpus is the run without it on the
corpus read with its sides exchanged (`Externals.swapSides`), up to that
order:

* `trainRun_flip`: after any number of passes the two runs are in the same
  state (table, Viterbi edges, reports, scratch buffer), except that every
  link written is exchanged (`TrainState.swapOut`).  A line with an empty
  side stops both with the same message.
* `scoreTestset_flip`: on a test set the two scorers keep the same
  `log_prob`s and write mirrored outputs (`Out.Mirror`): the same text and
  numbers, the links exchanged, and each sentence pair with its sides
  exchanged, since the scorer prints the pair as it was read.
* `reverse_mirrors_swapped_corpus`: the two runs of `main`.

Each is proved one level at a time: a target position, a line, a pass and
a run, each level from the one below.
-/

namespace Cdec

variable {R : Type} [LinearOrderedField R] [CMath R]

/-- The collaborators reading every line with its two sides exchanged. -/
def Externals.swapSides (ext : Externals R) : Externals R :=
  { ext with ReadLine := fun line => (ext.ReadLine line).swap }

/-- The configuration with the direction flag flipped. -/
def Config.flip (cfg : Config R) : Config R := { cfg with reverse := !cfg.reverse }

/-- The state with every link written so far exchanged. -/
def TrainState.swapOut (st : TrainState R) : TrainState R :=
  { st with out := st.out.map Out.swap }

/-- Two writes at the same place of the two runs' outputs: the same text, a
link against the link with its numbers exchanged, a number against the same
number, a sentence pair against the pair with its sides exchanged. -/
inductive Out.Mirror : Out R → Out R → Prop
  | str (s : String) : Out.Mirror (.str s) (.str s)
  | link (a b : Nat) : Out.Mirror (.link a b) (.link b a)
  | num (x : R) : Out.Mirror (.num x) (.num x)
  | pair (s t : String) : Out.Mirror (.pair s t) (.pair t s)

/-- Two states of the test loop of the two runs: the same scratch buffer and
total, and mirrored outputs. -/
structure ScoreState.Mirror (sc sc' : ScoreState R) : Prop where
  unnormed_a_i : sc.unnormed_a_i = sc'.unnormed_a_i
  tlp : sc.tlp = sc'.tlp
  out : List.Forall₂ Out.Mirror sc.out sc'.out

/-- Two results of `main`: the same abort, or the same reports and mirrored
outputs. -/
inductive MainMirror :
    Except String (List (Out R) × List (Report R)) →
      Except String (List (Out R) × List (Report R)) → Prop
  | error (e : String) : MainMirror (.error e) (.error e)
  | ok (out out' : List (Out R)) (reports : List (Report R)) :
      List.Forall₂ Out.Mirror out out' → MainMirror (.ok (out, reports)) (.ok (out', reports))

/-! ## What the flag changes -/

omit [LinearOrderedField R] [CMath R] in
theorem orient_swap (reverse : Bool) (p : List WordID × List WordID) :
    orient (!reverse) p.swap = orient reverse p := by
  cases reverse <;> rfl

omit [LinearOrderedField R] [CMath R] in
theorem alignmentLink_flip (reverse : Bool) (j : Nat) (m : Int) :
    (alignmentLink (!reverse) j m : Out R) = (alignmentLink reverse j m).swap := by
  cases reverse <;> rfl

omit [LinearOrderedField R] [CMath R] in
theorem mirror_alignmentLink (reverse : Bool) (j : Nat) (m : Int) :
    Out.Mirror (alignmentLink reverse j m : Out R) (alignmentLink (!reverse) j m) := by
  cases reverse
  · exact .link _ _
  · exact .link _ _

section Swap

omit [LinearOrderedField R] [CMath R]

variable (s : String) (a b : Nat) (x : R)

@[simp] theorem Out.swap_str : (Out.str s : Out R).swap = .str s := rfl
@[simp] theorem Out.swap_link : (Out.link a b : Out R).swap = .link b a := rfl
@[simp] theorem Out.swap_num : (Out.num x).swap = .num x := rfl
@[simp] theorem Out.swap_pair (t : String) : (Out.pair s t : Out R).swap = .pair t s := rfl

end Swap

omit [LinearOrderedField R] [CMath R] in
@[simp] theorem Out.swap_swap (o : Out R) : o.swap.swap = o := by
  cases o <;> rfl

omit [LinearOrderedField R] [CMath R] in
theorem Out.mirror_swap (o : Out R) : Out.Mirror o.swap o := by
  cases o with
  | str s => exact .str s
  | link a b => exact .link b a
  | num x => exact .num x
  | pair s t => exact .pair t s

omit [LinearOrderedField R] [CMath R] in
/-- Output that the other direction writes alike mirrors itself. -/
theorem Out.mirror_self_of_swap {os : List (Out R)} (h : ∀ o ∈ os, o.swap = o) :
    List.Forall₂ Out.Mirror os os :=
  List.forall₂_same.mpr fun o ho => by simpa only [h o ho] using Out.mirror_swap o

omit [LinearOrderedField R] [CMath R] in
theorem Out.mirror_map_swap (os : List (Out R)) : List.Forall₂ Out.Mirror (os.map Out.swap) os :=
  List.forall₂_map_left_iff.mpr (List.forall₂_same.mpr fun o _ => Out.mirror_swap o)

section Flip

omit [LinearOrderedField R] [CMath R]

variable (kNULL : WordID) (cfg : Config R)

/-! Nothing but the link's order reads the flag. -/

@[simp] theorem Externals.swapSides_kNULL (ext : Externals R) : ext.swapSides.kNULL = ext.kNULL :=
  rfl
@[simp] theorem Externals.swapSides_log_poisson (ext : Externals R) :
    ext.swapSides.log_poisson = ext.log_poisson := rfl
@[simp] theorem Externals.swapSides_ReadFile (ext : Externals R) :
    ext.swapSides.ReadFile = ext.ReadFile := rfl
@[simp] theorem Config.flip_reverse : cfg.flip.reverse = !cfg.reverse := rfl
@[simp] theorem Config.flip_final : cfg.flip.final = cfg.final := rfl
@[simp] theorem Config.flip_add_viterbi : cfg.flip.add_viterbi = cfg.add_viterbi := rfl
@[simp] theorem Config.flip_hide_training_alignments :
    cfg.flip.hide_training_alignments = cfg.hide_training_alignments := rfl
@[simp] theorem Config.flip_passes : cfg.flip.passes = cfg.passes := rfl
@[simp] theorem Config.flip_write_alignments :
    cfg.flip.write_alignments = cfg.write_alignments := rfl
@[simp] theorem Config.flip_testset : cfg.flip.testset = cfg.testset := rfl

end Flip

section Flip

variable (kNULL : WordID) (cfg : Config R)

omit [CMath R] in
@[simp] theorem argmaxProbs_flip : argmaxProbs kNULL cfg.flip = argmaxProbs kNULL cfg := rfl
@[simp] theorem fillProbs_flip : fillProbs kNULL cfg.flip = fillProbs kNULL cfg := rfl
@[simp] theorem scorePosition_flip : scorePosition kNULL cfg.flip = scorePosition kNULL cfg := rfl
omit [CMath R] in
@[simp] theorem incrementPosition_flip :
    incrementPosition kNULL cfg.flip = incrementPosition kNULL cfg := rfl
@[simp] theorem mStep_flip (ext : Externals R) : mStep ext.swapSides cfg.flip = mStep ext cfg := rfl
@[simp] theorem dump_flip (ext : Externals R) : dump ext.swapSides cfg.flip = dump ext cfg := rfl

end Flip

/-! ## Training -/

section Training

variable (ext : Externals R) (cfg : Config R) (kNULL : WordID) (src trg : List WordID)
  (st : TrainState R)

theorem trainPosition_flip (final : Bool) (j : Nat) :
    trainPosition kNULL cfg final src trg st.swapOut j
      = (trainPosition kNULL cfg.flip final src trg st j).swapOut := by
  cases final
  · rfl
  · simp only [trainPosition, finalPosition, if_true, fillProbs_flip, argmaxProbs_flip,
      Config.flip_add_viterbi, Config.flip_write_alignments,
      Config.flip_hide_training_alignments, Config.flip_reverse, TrainState.swapOut]
    split_ifs <;> simp [alignmentLink_flip]

theorem trainLine_flip (iter : Nat) (line : String) :
    trainLine ext cfg iter st.swapOut line
      = TrainState.swapOut <$> trainLine ext.swapSides cfg.flip iter st line := by
  have hp : orient cfg.flip.reverse (ext.swapSides.ReadLine line)
      = orient cfg.reverse (ext.ReadLine line) := orient_swap _ _
  simp only [trainLine, hp, Config.flip_write_alignments, Config.flip_final,
    Config.flip_hide_training_alignments, Externals.swapSides_kNULL]
  generalize orient cfg.reverse (ext.ReadLine line) = p
  have hs : startLine iter p.1 p.2 st.swapOut = (startLine iter p.1 p.2 st).swapOut := rfl
  rw [hs, List.foldl_hom _ _ _ _ _ fun x y => trainPosition_flip cfg ext.kNULL _ _ x _ y]
  split_ifs
  · rfl
  · simp [TrainState.swapOut]
  · rfl

theorem sweep_flip (corpus : List String) (iter : Nat) :
    sweep ext cfg corpus iter st.swapOut
      = TrainState.swapOut <$> sweep ext.swapSides cfg.flip corpus iter st :=
  foldlM_hom TrainState.swapOut (fun a line => trainLine_flip ext cfg a iter line) corpus
    { st with likelihood := 0, denom := 0, lc := 0 }

theorem endPass_flip (iter : Nat) :
    endPass ext cfg iter st.swapOut = (endPass ext.swapSides cfg.flip iter st).swapOut := by
  unfold endPass
  split_ifs <;> rfl

/-- After any number of passes, the run with the flag flipped on the
corpus with its sides exchanged is in the same state, up to the order of
the links written. -/
theorem trainRun_flip (corpus : List String) (n : Nat) :
    trainRun ext cfg corpus n
      = TrainState.swapOut <$> trainRun ext.swapSides cfg.flip corpus n := by
  induction n with
  | zero => rfl
  | succ n ih =>
    rw [trainRun_succ, trainRun_succ, ih, bind_map_left, map_bind]
    congr 1
    funext st
    simp only [iteration, sweep_flip, bind_map_left, map_bind, endPass_flip]
    rfl

end Training

/-! ## The test set -/

section Scoring

variable (ext : Externals R) (cfg : Config R) (t : TTable R) (msm : R)

theorem foldl_testPosition_flip (src trg : List WordID) (L : List Nat) (u : List R) (lp : R)
    (out out' : List (Out R)) (ho : List.Forall₂ Out.Mirror out out') :
    let r := L.foldl (testPosition ext.kNULL cfg t src trg) (u, lp, out)
    let r' := L.foldl (testPosition ext.kNULL cfg.flip t src trg) (u, lp, out')
    r.1 = r'.1 ∧ r.2.1 = r'.2.1 ∧ List.Forall₂ Out.Mirror r.2.2 r'.2.2 := by
  induction L generalizing u lp out out' with
  | nil => exact ⟨rfl, rfl, ho⟩
  | cons j L ih =>
    refine ih _ _ _ _ (List.rel_append ho ?_)
    simp only [testPosition, scorePosition_flip, Config.flip_write_alignments]
    split_ifs
    · exact .cons (.str _) (.cons (mirror_alignmentLink _ _ _) .nil)
    · exact .nil

theorem scoreLine_flip {sc sc' : ScoreState R} (h : sc.Mirror sc') (line : String) :
    (scoreLine ext cfg t msm sc line).Mirror (scoreLine ext.swapSides cfg.flip t msm sc' line) := by
  have hp : orient cfg.flip.reverse (ext.swapSides.ReadLine line)
      = orient cfg.reverse (ext.ReadLine line) := orient_swap _ _
  simp only [scoreLine, hp, h.unnormed_a_i, Externals.swapSides_kNULL,
    Externals.swapSides_log_poisson]
  generalize orient cfg.reverse (ext.ReadLine line) = q
  obtain ⟨hu, hl, ho⟩ := foldl_testPosition_flip ext cfg t q.1 q.2 (List.range q.2.length) _ _ _ _
    (List.rel_append h.out (.cons (.pair _ _) .nil))
  beta_reduce at hu hl ho
  refine ⟨hu, ?_, List.rel_append ho (.cons (.str _) (.cons ?_ (.cons (.str _) .nil)))⟩
  · show sc.tlp + _ = sc'.tlp + _
    rw [h.tlp, hl]
    rfl
  · rw [hl]; exact .num _

theorem scoreTestset_flip (lines : List String) {sc sc' : ScoreState R} (h : sc.Mirror sc') :
    (scoreTestset ext cfg t msm sc lines).Mirror
      (scoreTestset ext.swapSides cfg.flip t msm sc' lines) := by
  induction lines generalizing sc sc' with
  | nil => exact h
  | cons line lines ih => exact ih (scoreLine_flip ext cfg t msm h line)

end Scoring

/-! ## The two runs of `main` -/

/-- The dump writes only text and numbers. -/
theorem swap_mem_dump (ext : Externals R) (cfg : Config R) (t : TTable R)
    (viterbi : Word2Word2Double R) : ∀ o ∈ dump ext cfg t viterbi, o.swap = o := by
  simp only [dump, dumpLine, List.mem_flatMap, List.mem_cons, List.not_mem_nil, or_false]
  rintro o ⟨_, -, rfl | rfl | rfl | rfl | rfl | rfl⟩ <;> rfl

theorem afterTraining_flip (ext : Externals R) (cfg : Config R) (st : TrainState R) :
    List.Forall₂ Out.Mirror (afterTraining ext cfg st.swapOut)
      (afterTraining ext.swapSides cfg.flip st) := by
  have hsc : ScoreState.Mirror ⟨st.swapOut.unnormed_a_i, 0, st.swapOut.out⟩
      ⟨st.unnormed_a_i, 0, st.out⟩ := ⟨rfl, rfl, Out.mirror_map_swap st.out⟩
  have hdump := Out.mirror_self_of_swap (swap_mem_dump ext cfg st.s2t st.s2t_viterbi)
  simp only [afterTraining, Config.flip_testset, Config.flip_write_alignments,
    Externals.swapSides_ReadFile, dump_flip]
  have hscore := (scoreTestset_flip ext cfg st.s2t st.mean_srclen_multiplier
    (ext.ReadFile cfg.testset) hsc).out
  split_ifs
  · exact hsc.out
  · exact hscore
  · exact List.rel_append hsc.out hdump
  · exact List.rel_append hscore hdump

/-- `main` with the direction flag flipped, on the corpus and test set read
with their sides exchanged: the same abort, or the same reports and a
mirrored output. -/
theorem main_flip (ext : Externals R) (o : Options R) :
    MainMirror (main ext o) (main ext.swapSides { o with reverse := !o.reverse }) := by
  have hv : ({ o with reverse := !o.reverse } : Options R).validate = o.validate := rfl
  have hc : ({ o with reverse := !o.reverse } : Options R).config = o.config.flip := rfl
  simp only [main, hv, hc, Config.flip_passes, Externals.swapSides_ReadFile,
    trainRun_flip ext o.config]
  cases o.validate with
  | error e => exact .error e
  | ok u =>
    cases trainRun ext.swapSides o.config.flip (ext.ReadFile (o.input.getD "")) o.config.passes with
    | error e => exact .error e
    | ok st => exact .ok _ _ st.reports (afterTraining_flip ext o.config st)

/-- `main` with `--reverse` on a corpus and without it on the corpus read
with its sides exchanged: after every pass the same state up to the order of
each link written, so the same table, Viterbi edges and reports; on the test
set the same scores and mirrored output; and the two runs abort with the
same message or end with the same reports and mirrored output. -/
theorem reverse_mirrors_swapped_corpus (ext : Externals R) (o : Options R) :
    let cfg := ({ o with reverse := true } : Options R).config
    let cfg' := ({ o with reverse := false } : Options R).config
    (∀ corpus n, trainRun ext cfg corpus n
        = TrainState.swapOut <$> trainRun ext.swapSides cfg' corpus n) ∧
    (∀ t msm (sc : ScoreState R) lines,
        (scoreTestset ext cfg t msm { sc with out := sc.out.map Out.swap } lines).Mirror
          (scoreTestset ext.swapSides cfg' t msm sc lines)) ∧
    MainMirror (main ext { o with reverse := true }) (main ext.swapSides { o with reverse := false }) :=
  ⟨fun corpus n => trainRun_flip ext _ corpus n,
    fun t msm sc lines => scoreTestset_flip ext _ t msm lines ⟨rfl, rfl, Out.mirror_map_swap sc.out⟩,
    main_flip ext { o with reverse := true }⟩

end Cdec
