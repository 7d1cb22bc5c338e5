import Cdec.FastAlign.Position

/-!
# `Cdec.FastAlign.Train` — the EM loop of `main` (lines 83-201)

`main` makes `ITERATIONS` passes over the corpus.  Each pass re-reads it,
and for every line and every target position computes the candidates'
products (`fillProbs`); on a pass before the last it adds each product over
`sum` to the counts (lines 173-176), on the last it picks the argmax, prints
the alignment link and records the Viterbi edge (lines 144-171).  Between
passes it reports the likelihood and normalizes the counts into the table.

All of the loop's mutable state is one record, `TrainState`, threaded through
four nested steps, each a function here: a target position
(`trainPosition`), a line (`trainLine`), a pass (`sweep`, then `iteration`
with the report and the M-step), and the run of the first `n` passes
(`trainRun`).  A line with an empty side aborts the run with the message of
line 110; that is the `Except`.

Left out, because nothing here reads it: the progress dots and counters
`main` writes to `cerr` every 1000 and 50000 lines (lines 104-105, 186).
-/

namespace Cdec

variable {R : Type} [LinearOrderedField R] [CMath R]

/-- What `cerr` shows about a pass (lines 90, 191-194). -/
structure Report (R : Type) where
  iteration : Nat
  final : Bool
  likelihood : R
  base2_likelihood : R
  cross_entropy : R
  perplexity : R

/-- The variables of `main` the training loop writes: the table, the Viterbi
edges, the length statistics, the scratch buffer `unnormed_a_i`, a pass's
accumulators (`likelihood`, `denom`, `lc`), a line's `probs` and `first_al`,
and what has been written to `cout` and reported on `cerr`. -/
structure TrainState (R : Type) where
  s2t : TTable R
  s2t_viterbi : Word2Word2Double R
  tot_len_ratio : R
  mean_srclen_multiplier : R
  unnormed_a_i : List R
  likelihood : R
  denom : R
  lc : Nat
  probs : List R
  first_al : Bool
  out : List (Out R)
  reports : List (Report R)

/-- The state at line 87, before the first pass. -/
def TrainState.init : TrainState R :=
  ⟨TTable.empty, UMap.empty, 0, 0, [], 0, 0, 0, [], true, [], []⟩

/-- `vector<double>::resize(n)` to a larger size: zeros appended. -/
def resize (u : List R) (n : Nat) : List R := u ++ List.replicate (n - u.length) 0

/-- Lines 173-176: the E-step's increments, each product over `sum`. -/
def incrementPosition (kNULL : WordID) (cfg : Config R) (src : List WordID) (f_j : WordID)
    (sum : R) (st : TrainState R) : TrainState R :=
  let s2t := if cfg.use_null then st.s2t.Increment kNULL f_j (st.probs.getD 0 0 / sum) else st.s2t
  { st with
    s2t := (List.range' 1 src.length).foldl
      (fun t i => t.Increment (src.getD (i - 1) 0) f_j (st.probs.getD i 0 / sum)) s2t }

/-- `cout << j << '-' << (max_index - 1)` in reverse mode, else the other way
round (lines 164-167). -/
def alignmentLink (reverse : Bool) (j : Nat) (max_index : Int) : Out R :=
  if reverse then .link j (max_index - 1).toNat else .link (max_index - 1).toNat j

/-- Lines 144-171: on the final pass, the argmax, its link (separated by a
space from the previous one of the line), and the Viterbi edge. -/
def finalPosition (kNULL : WordID) (cfg : Config R) (src : List WordID) (j : Nat)
    (f_j : WordID) (st : TrainState R) : TrainState R :=
  if cfg.add_viterbi || cfg.write_alignments then
    let b := argmaxProbs kNULL cfg src st.probs
    let st :=
      if !cfg.hide_training_alignments && cfg.write_alignments && b.max_index > 0 then
        { st with
          out := st.out ++ (if st.first_al then [] else [.str " "])
            ++ [alignmentLink cfg.reverse j b.max_index],
          first_al := false }
      else st
    { st with s2t_viterbi := st.s2t_viterbi.mark b.max_i f_j }
  else st

/-- One pass of the `j` loop, lines 121-178. -/
def trainPosition (kNULL : WordID) (cfg : Config R) (final : Bool) (src trg : List WordID)
    (st : TrainState R) (j : Nat) : TrainState R :=
  let f_j := trg.getD j 0
  let r := fillProbs kNULL cfg st.s2t src trg.length j f_j st.probs st.unnormed_a_i
  let st := { st with probs := r.1, unnormed_a_i := r.2.1 }
  let st := if final then finalPosition kNULL cfg src j f_j st
    else incrementPosition kNULL cfg src f_j r.2.2 st
  { st with likelihood := st.likelihood + CMath.log r.2.2 }

/-- Lines 103-119 once a line has two non-empty sides: the line counter,
the scratch buffer grown to the source length, the length ratio (first pass
only), the target words counted into `denom`, a fresh `probs` and `first_al`. -/
def startLine (iter : Nat) (src trg : List WordID) (st : TrainState R) : TrainState R :=
  { st with
    lc := st.lc + 1
    unnormed_a_i := if src.length > st.unnormed_a_i.length
      then resize st.unnormed_a_i src.length else st.unnormed_a_i
    tot_len_ratio := if iter = 0 then st.tot_len_ratio + (trg.length : R) / src.length
      else st.tot_len_ratio
    denom := st.denom + trg.length
    probs := List.replicate (src.length + 1) 0
    first_al := true }

omit [CMath R] in
@[simp] theorem startLine_s2t (iter : Nat) (src trg : List WordID) (st : TrainState R) :
    (startLine iter src trg st).s2t = st.s2t := rfl

omit [CMath R] in
@[simp] theorem startLine_likelihood (iter : Nat) (src trg : List WordID) (st : TrainState R) :
    (startLine iter src trg st).likelihood = st.likelihood := rfl

omit [CMath R] in
@[simp] theorem startLine_reports (iter : Nat) (src trg : List WordID) (st : TrainState R) :
    (startLine iter src trg st).reports = st.reports := rfl

section Frame

variable (kNULL : WordID) (cfg : Config R) (final : Bool) (src trg : List WordID)
  (st : TrainState R) (j : Nat) (L : List Nat)

/-! A target position writes neither the report list nor the per-pass
counters, and before the last pass it writes no output and no Viterbi edge. -/

@[simp] theorem trainPosition_reports :
    (trainPosition kNULL cfg final src trg st j).reports = st.reports := by
  unfold trainPosition finalPosition incrementPosition; dsimp only; split_ifs <;> rfl

@[simp] theorem trainPosition_mean_srclen_multiplier :
    (trainPosition kNULL cfg final src trg st j).mean_srclen_multiplier
      = st.mean_srclen_multiplier := by
  unfold trainPosition finalPosition incrementPosition; dsimp only; split_ifs <;> rfl

@[simp] theorem trainPosition_final_s2t :
    (trainPosition kNULL cfg true src trg st j).s2t = st.s2t := by
  unfold trainPosition finalPosition; dsimp only; rw [if_pos rfl]; split_ifs <;> rfl

@[simp] theorem trainPosition_notFinal_out :
    (trainPosition kNULL cfg false src trg st j).out = st.out := rfl

@[simp] theorem trainPosition_notFinal_viterbi :
    (trainPosition kNULL cfg false src trg st j).s2t_viterbi = st.s2t_viterbi := rfl

@[simp] theorem foldl_trainPosition_notFinal_out :
    (L.foldl (trainPosition kNULL cfg false src trg) st).out = st.out := by
  induction L generalizing st <;> simp [*]

@[simp] theorem foldl_trainPosition_notFinal_viterbi :
    (L.foldl (trainPosition kNULL cfg false src trg) st).s2t_viterbi = st.s2t_viterbi := by
  induction L generalizing st <;> simp [*]

@[simp] theorem foldl_trainPosition_reports :
    (L.foldl (trainPosition kNULL cfg final src trg) st).reports = st.reports := by
  induction L generalizing st <;> simp [*]

@[simp] theorem foldl_trainPosition_mean_srclen_multiplier :
    (L.foldl (trainPosition kNULL cfg final src trg) st).mean_srclen_multiplier
      = st.mean_srclen_multiplier := by
  induction L generalizing st <;> simp [*]

end Frame

/-- One corpus line, lines 101-180. -/
def trainLine (ext : Externals R) (cfg : Config R) (iter : Nat) (st : TrainState R)
    (line : String) : Except String (TrainState R) :=
  let final := cfg.final iter
  let p := orient cfg.reverse (ext.ReadLine line)
  if p.1.length = 0 ∨ p.2.length = 0 then
    .error ("Error: " ++ toString (st.lc + 1) ++ "\n" ++ line ++ "\n")
  else
    let st := (List.range p.2.length).foldl (trainPosition ext.kNULL cfg final p.1 p.2)
      (startLine iter p.1 p.2 st)
    .ok (if cfg.write_alignments && final && !cfg.hide_training_alignments
      then { st with out := st.out ++ [.str "\n"] } else st)

/-- The line loop of a pass (lines 93-181), from fresh accumulators. -/
def sweep (ext : Externals R) (cfg : Config R) (corpus : List String) (iter : Nat)
    (st : TrainState R) : Except String (TrainState R) :=
  corpus.foldlM (trainLine ext cfg iter) { st with likelihood := 0, denom := 0, lc := 0 }

/-- The M-step between passes (lines 195-200). -/
def mStep (ext : Externals R) (cfg : Config R) (t : TTable R) : TTable R :=
  if cfg.variational_bayes then t.NormalizeVB ext.digamma cfg.alpha else t.Normalize

/-- Lines 183-200, after the line loop: `mean_srclen_multiplier` after the
first pass, the report, and the M-step unless the pass is the last. -/
def endPass (ext : Externals R) (cfg : Config R) (iter : Nat) (st : TrainState R) : TrainState R :=
  let final := cfg.final iter
  let base2_likelihood := st.likelihood / CMath.log 2
  let st := if iter = 0
    then { st with mean_srclen_multiplier := st.tot_len_ratio / st.lc } else st
  let report : Report R := ⟨iter + 1, final, st.likelihood, base2_likelihood,
    -base2_likelihood / st.denom, CMath.pow 2 (-base2_likelihood / st.denom)⟩
  { st with
    s2t := if final then st.s2t else mStep ext cfg st.s2t
    reports := st.reports ++ [report] }

/-- A whole pass, lines 89-200. -/
def iteration (ext : Externals R) (cfg : Config R) (corpus : List String) (iter : Nat)
    (st : TrainState R) : Except String (TrainState R) := do
  let st ← sweep ext cfg corpus iter st
  pure (endPass ext cfg iter st)

section EndPass

variable (ext : Externals R) (cfg : Config R) (iter : Nat) (st : TrainState R)

@[simp] theorem endPass_s2t :
    (endPass ext cfg iter st).s2t = if cfg.final iter then st.s2t else mStep ext cfg st.s2t := by
  unfold endPass; dsimp only; split_ifs <;> rfl

@[simp] theorem endPass_out : (endPass ext cfg iter st).out = st.out := by
  unfold endPass; dsimp only; split_ifs <;> rfl

@[simp] theorem endPass_unnormed_a_i : (endPass ext cfg iter st).unnormed_a_i = st.unnormed_a_i := by
  unfold endPass; dsimp only; split_ifs <;> rfl

@[simp] theorem endPass_tot_len_ratio :
    (endPass ext cfg iter st).tot_len_ratio = st.tot_len_ratio := by
  unfold endPass; dsimp only; split_ifs <;> rfl

/-- A pass ends with cleared counts: the M-step clears them, and the last
pass keeps the counts it started from. -/
theorem endPass_counts_empty (h : cfg.final iter = true → st.s2t.counts = UMap.empty) :
    (endPass ext cfg iter st).s2t.counts = UMap.empty := by
  rw [endPass_s2t]
  split_ifs with hf
  · exact h hf
  · unfold mStep; split_ifs <;> rfl

end EndPass

/-- The first `n` passes of the loop at line 88. -/
def trainRun (ext : Externals R) (cfg : Config R) (corpus : List String) (n : Nat) :
    Except String (TrainState R) :=
  (List.range n).foldlM (fun st iter => iteration ext cfg corpus iter st) TrainState.init

end Cdec
