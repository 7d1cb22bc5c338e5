import Cdec.FastAlign.Estep
import Cdec.FastAlign.Prior

/-!
# `Cdec.FastAlign.Final` — what the last pass prints and records

On the last pass `main` reads the table and does not change it.  At every
target position it picks the argmax of the candidates' products
(lines 146-160), prints the alignment link unless the argmax is NULL
(lines 161-169), and records the Viterbi edge (line 171); each line's links
are separated by single spaces and the line ends with `endl` (line 180).

## What is proved

* `trainPosition_final`: one target position, in closed form.  The argmax is
  `bestCand`, the first maximum of the candidates' products (through
  `argmaxProbs_eq_firstMax`), as soon as the seed `-1` is beaten when NULL is off.
* `positions_final` and `trainLine_final`: a line prints `alignmentLine` and
  records `viterbiEdges`; `sepJoin_append` is what makes `first_al` and the
  separators of lines 163-164 come out as single spaces between the links.
* `final_pass_alignments`: a whole last pass over a corpus, under a
  non-negative table, prints one `alignmentLine` per corpus line and records
  every Viterbi edge; every printed link's numbers are in range of the line's
  two sides.
-/

namespace Cdec

variable {R : Type} [LinearOrderedField R] [CMath R]

/-! ## The specification of the last pass -/

/-- The link printed for target position `j` aligned to candidate `a ≥ 1`:
`(a-1)-j`, or `j-(a-1)` in reverse mode. -/
def specLink (reverse : Bool) (j a : Nat) : Out R :=
  if reverse then .link j (a - 1) else .link (a - 1) j

/-- The first maximum of the candidates' products at target position `j` of
the pair `p`. -/
def bestCand (kNULL : WordID) (cfg : Config R) (t : TTable R) (p : List WordID × List WordID)
    (j : Nat) : Nat :=
  firstMax (candProb kNULL cfg t p.1 p.2.length j (p.2.getD j 0)) (candIndices cfg p.1.length)

/-- The link of target position `j`, none when its first maximum is NULL. -/
def linkOf (kNULL : WordID) (cfg : Config R) (t : TTable R) (p : List WordID × List WordID)
    (j : Nat) : List (Out R) :=
  if bestCand kNULL cfg t p j = 0 then [] else [specLink cfg.reverse j (bestCand kNULL cfg t p j)]

/-- Tokens written one after another, each after a space unless it is the
first of its line. -/
def sepJoin (first : Bool) (xs : List (Out R)) : List (Out R) :=
  if first then xs.intersperse (.str " ") else xs.flatMap fun x => [.str " ", x]

/-- The line the last pass prints for a pair: its links for `j = 0..J-1`,
separated by single spaces, then the end of the line. -/
def alignmentLine (kNULL : WordID) (cfg : Config R) (t : TTable R)
    (p : List WordID × List WordID) : List (Out R) :=
  ((List.range p.2.length).flatMap (linkOf kNULL cfg t p)).intersperse (.str " ") ++ [.str "\n"]

/-- The Viterbi edges of a pair: each position's first maximum's word, with
the position's target word. -/
def viterbiEdges (kNULL : WordID) (cfg : Config R) (t : TTable R)
    (p : List WordID × List WordID) (L : List Nat) : List (WordID × WordID) :=
  L.map fun j => (candWord kNULL p.1 (bestCand kNULL cfg t p j), p.2.getD j 0)

namespace UMap

/-- `m[e][f] = 1.0` for each `(e, f)` in turn. -/
def markSeq (m : UMap (UMap R)) (ps : List (WordID × WordID)) : UMap (UMap R) :=
  ps.foldl (fun m p => m.mark p.1 p.2) m

omit [CMath R] in
theorem mem_markSeq (m : UMap (UMap R)) (ps : List (WordID × WordID)) (e f : WordID) :
    (m.markSeq ps).Mem e f ↔ m.Mem e f ∨ (e, f) ∈ ps := by
  induction ps generalizing m with
  | nil => simp [markSeq]
  | cons p ps ih =>
    simp only [markSeq, List.foldl_cons] at ih ⊢
    rw [ih, mem_mark, List.mem_cons, Prod.ext_iff]
    tauto

end UMap

/-! ## Separators -/

theorem intersperse_cons_eq_flatMap {α : Type} (sep x : α) (xs : List α) :
    (x :: xs).intersperse sep = x :: xs.flatMap fun y => [sep, y] := by
  induction xs generalizing x with
  | nil => rfl
  | cons y ys ih => rw [List.intersperse_cons₂, ih]; rfl

omit [LinearOrderedField R] [CMath R] in
theorem sepJoin_nil (first : Bool) : sepJoin first ([] : List (Out R)) = [] := by
  cases first <;> rfl

omit [LinearOrderedField R] [CMath R] in
theorem sepJoin_singleton (first : Bool) (x : Out R) :
    sepJoin first [x] = (if first then [] else [.str " "]) ++ [x] := by
  cases first <;> rfl

omit [LinearOrderedField R] [CMath R] in
theorem sepJoin_append (first : Bool) (xs ys : List (Out R)) :
    sepJoin first (xs ++ ys) = sepJoin first xs ++ sepJoin (first && xs.isEmpty) ys := by
  cases first
  · simp [sepJoin]
  · cases xs with
    | nil => simp [sepJoin]
    | cons x xs => simp [sepJoin, intersperse_cons_eq_flatMap]

theorem mem_intersperse {α : Type} {sep a : α} {xs : List α} (h : a ∈ xs.intersperse sep) :
    a ∈ xs ∨ a = sep := by
  cases xs with
  | nil => simp at h
  | cons x xs =>
    rw [intersperse_cons_eq_flatMap] at h
    simp only [List.mem_cons, List.mem_flatMap, List.mem_singleton] at h ⊢
    aesop

/-! ## One position, one line -/

omit [LinearOrderedField R] [CMath R] in
theorem alignmentLink_natCast (reverse : Bool) (j a : Nat) :
    (alignmentLink reverse j (a : Int) : Out R) = specLink reverse j a := by
  have : ((a : Int) - 1).toNat = a - 1 := by omega
  cases reverse <;> simp [alignmentLink, specLink, this]

section Position

variable (kNULL : WordID) (cfg : Config R) (src trg : List WordID)

/-- The tokens position `j` writes on the last pass. -/
def finalTokens (t : TTable R) (j : Nat) : List (Out R) :=
  if cfg.write_alignments && !cfg.hide_training_alignments then linkOf kNULL cfg t (src, trg) j else []

/-- One target position of the last pass, in closed form: it writes its
tokens after a space unless they are the line's first, and records the edge
of its first maximum when either output needs it. -/
theorem trainPosition_final (st : TrainState R) (j : Nat)
    (hp : st.probs.length = src.length + 1) (hu : src.length ≤ st.unnormed_a_i.length)
    (hs : src ≠ [])
    (hseed : cfg.use_null = false → -1 < candProb kNULL cfg st.s2t src trg.length j (trg.getD j 0) 1) :
    let st' := trainPosition kNULL cfg true src trg st j
    st'.out = st.out ++ sepJoin st.first_al (finalTokens kNULL cfg src trg st.s2t j) ∧
    st'.first_al = (st.first_al && (finalTokens kNULL cfg src trg st.s2t j).isEmpty) ∧
    st'.s2t_viterbi = (if cfg.add_viterbi || cfg.write_alignments
      then st.s2t_viterbi.mark (candWord kNULL src (bestCand kNULL cfg st.s2t (src, trg) j))
        (trg.getD j 0) else st.s2t_viterbi) := by
  unfold trainPosition finalPosition
  dsimp only
  rw [fillProbs_eq _ _ _ _ _ _ _ _ _ hu]
  dsimp only
  rw [argmaxProbs_eq_firstMax kNULL cfg st.s2t src trg.length j _ st.probs hp hs hseed]
  simp only [Best.ofMax, finalTokens, linkOf, bestCand]
  generalize firstMax (candProb kNULL cfg st.s2t src trg.length j (trg.getD j 0))
    (candIndices cfg src.length) = a
  have hpos : ((a : Int) > 0) ↔ a ≠ 0 := by omega
  cases hw : cfg.write_alignments <;> cases hh : cfg.hide_training_alignments <;>
    cases hv : cfg.add_viterbi <;> by_cases ha : a = 0 <;>
    simp [hw, hh, hv, ha, hpos, sepJoin_nil, sepJoin_singleton, alignmentLink_natCast]

/-- The positions `L` of the last pass over a pair, in closed form. -/
theorem positions_final (L : List Nat) (st : TrainState R)
    (hp : st.probs.length = src.length + 1) (hu : src.length ≤ st.unnormed_a_i.length)
    (hs : src ≠ [])
    (hseed : ∀ j ∈ L, cfg.use_null = false →
      -1 < candProb kNULL cfg st.s2t src trg.length j (trg.getD j 0) 1) :
    let st' := L.foldl (trainPosition kNULL cfg true src trg) st
    st'.s2t = st.s2t ∧
    st'.out = st.out ++ sepJoin st.first_al (L.flatMap (finalTokens kNULL cfg src trg st.s2t)) ∧
    st'.first_al = (st.first_al && (L.flatMap (finalTokens kNULL cfg src trg st.s2t)).isEmpty) ∧
    st'.s2t_viterbi = (if cfg.add_viterbi || cfg.write_alignments
      then st.s2t_viterbi.markSeq (viterbiEdges kNULL cfg st.s2t (src, trg) L) else st.s2t_viterbi) := by
  induction L generalizing st with
  | nil => simp [UMap.markSeq, sepJoin, viterbiEdges]
  | cons j L ih =>
    obtain ⟨ho, hf, hv⟩ := trainPosition_final kNULL cfg src trg st j hp hu hs
      (hseed j (List.mem_cons_self j L))
    obtain ⟨-, -, -, hpl, hul⟩ := trainPosition_spec kNULL cfg src trg true st j hp hu
    have hs2t := trainPosition_final_s2t kNULL cfg src trg st j
    obtain ⟨hs', ho', hf', hv'⟩ := ih _ (hpl.trans hp) (hul ▸ hu)
      (fun k hk => hs2t ▸ hseed k (List.mem_cons_of_mem j hk))
    simp only [List.foldl_cons, List.flatMap_cons]
    rw [hs2t] at ho' hf' hv'
    refine ⟨hs'.trans hs2t, ?_, ?_, ?_⟩
    · rw [ho', ho, hf, sepJoin_append, List.append_assoc]
    · rw [hf', hf, Bool.and_assoc]
      cases finalTokens kNULL cfg src trg st.s2t j <;> rfl
    · rw [hv', hv]
      split_ifs <;> rfl

end Position

/-! ## A line, and a pass -/

section Pass

variable (ext : Externals R) (cfg : Config R)

/-- The last pass over a line with two non-empty sides: it leaves the table
alone, prints the line's `alignmentLine` when alignments are written, and
records its Viterbi edges when either output needs them. -/
theorem trainLine_final (iter : Nat) (st : TrainState R) (line : String)
    (hne : (ext.ReadLine line).1 ≠ [] ∧ (ext.ReadLine line).2 ≠ []) (hfin : cfg.final iter = true)
    (hseed : cfg.use_null = false → ∀ src J j f, src ≠ [] → -1 < candProb ext.kNULL cfg st.s2t src J j f 1) :
    let p := orient cfg.reverse (ext.ReadLine line)
    ∃ st', trainLine ext cfg iter st line = .ok st' ∧ st'.s2t = st.s2t ∧
      st'.out = st.out ++ (if cfg.write_alignments && !cfg.hide_training_alignments
        then alignmentLine ext.kNULL cfg st.s2t p else []) ∧
      st'.s2t_viterbi = (if cfg.add_viterbi || cfg.write_alignments
        then st.s2t_viterbi.markSeq (viterbiEdges ext.kNULL cfg st.s2t p (List.range p.2.length))
        else st.s2t_viterbi) := by
  obtain ⟨h1, h2⟩ := orient_ne_nil cfg.reverse _ hne
  unfold trainLine
  dsimp only
  generalize orient cfg.reverse (ext.ReadLine line) = p at h1 h2 ⊢
  rw [if_neg (by simp [List.length_eq_zero, h1, h2])]
  obtain ⟨hs, ho, -, hv⟩ := positions_final ext.kNULL cfg p.1 p.2 (List.range p.2.length)
    (startLine iter p.1 p.2 st) (by simp [startLine])
    (by simp only [startLine]; split_ifs with h
        · simp [resize]; omega
        · omega)
    h1 (fun j _ hn => hseed hn _ _ _ _ h1)
  have htok : finalTokens ext.kNULL cfg p.1 p.2 st.s2t = if cfg.write_alignments &&
      !cfg.hide_training_alignments then linkOf ext.kNULL cfg st.s2t p else fun _ => [] := by
    funext j; unfold finalTokens; split_ifs <;> rfl
  simp only [startLine_s2t, htok] at hs ho hv
  refine ⟨_, rfl, ?_⟩
  simp only [hfin, Bool.and_true]
  by_cases hw : (cfg.write_alignments && !cfg.hide_training_alignments) = true
  · simp only [if_pos hw] at ho ⊢
    exact ⟨hs, by rw [ho]; simp [alignmentLine, startLine, sepJoin], hv⟩
  · simp only [if_neg hw] at ho ⊢
    have hnil : (List.range p.2.length).flatMap (fun _ => ([] : List (Out R))) = [] :=
      List.flatMap_eq_nil_iff.mpr fun _ _ => rfl
    exact ⟨hs, by rw [ho, hnil]; simp [startLine, sepJoin], hv⟩

/-- The last pass over a corpus whose lines have non-empty sides, in closed
form, from any state whose table beats the seed `-1` when NULL is off. -/
theorem sweep_final (corpus : List String)
    (hne : ∀ l ∈ corpus, (ext.ReadLine l).1 ≠ [] ∧ (ext.ReadLine l).2 ≠ [])
    (iter : Nat) (hfin : cfg.final iter = true) (st : TrainState R)
    (hseed : cfg.use_null = false → ∀ src J j f, src ≠ [] → -1 < candProb ext.kNULL cfg st.s2t src J j f 1) :
    ∃ st', sweep ext cfg corpus iter st = .ok st' ∧ st'.s2t = st.s2t ∧
      st'.out = st.out ++ (if cfg.write_alignments && !cfg.hide_training_alignments
        then corpus.flatMap (fun l => alignmentLine ext.kNULL cfg st.s2t (orient cfg.reverse (ext.ReadLine l)))
        else []) ∧
      st'.s2t_viterbi = (if cfg.add_viterbi || cfg.write_alignments
        then st.s2t_viterbi.markSeq (corpus.flatMap fun l =>
          viterbiEdges ext.kNULL cfg st.s2t (orient cfg.reverse (ext.ReadLine l))
            (List.range (orient cfg.reverse (ext.ReadLine l)).2.length))
        else st.s2t_viterbi) := by
  unfold sweep
  generalize hst : { st with likelihood := 0, denom := 0, lc := 0 } = st₀
  have h₀ : st₀.s2t = st.s2t ∧ st₀.out = st.out ∧ st₀.s2t_viterbi = st.s2t_viterbi := by
    subst hst; exact ⟨rfl, rfl, rfl⟩
  clear hst
  induction corpus generalizing st₀ st with
  | nil => exact ⟨st₀, rfl, h₀.1, by simp [h₀.2.1], by split_ifs <;> simp [h₀.2.2, UMap.markSeq]⟩
  | cons l corpus ih =>
    obtain ⟨st₁, h₁, hs₁, ho₁, hv₁⟩ := trainLine_final ext cfg iter st₀ l
      (hne l (List.mem_cons_self l corpus)) hfin (h₀.1 ▸ hseed)
    obtain ⟨st', h', hs', ho', hv'⟩ := ih (fun l' hl' => hne l' (List.mem_cons_of_mem l hl'))
      st₁ (fun hn => hs₁ ▸ h₀.1 ▸ hseed hn) st₁ ⟨rfl, rfl, rfl⟩
    refine ⟨st', by rw [List.foldlM_cons, h₁]; exact h', hs'.trans (hs₁.trans h₀.1), ?_, ?_⟩
    · rw [ho', ho₁, h₀.2.1, hs₁, h₀.1]
      split_ifs <;> simp
    · rw [hv', hv₁, h₀.2.2, hs₁, h₀.1]
      split_ifs <;> simp [UMap.markSeq, List.foldl_append]

end Pass

/-! ## The alignments of the last pass -/

omit [LinearOrderedField R] [CMath R] in
theorem le_of_mem_candIndices {cfg : Config R} {I a : Nat} (h : a ∈ candIndices cfg I) : a ≤ I := by
  unfold candIndices at h
  split_ifs at h <;> simp [List.mem_range'_1] at h <;> omega

theorem isFirstMax_bestCand (kNULL : WordID) (cfg : Config R) (t : TTable R)
    (p : List WordID × List WordID) (j : Nat) (hs : p.1 ≠ []) :
    IsFirstMax (candProb kNULL cfg t p.1 p.2.length j (p.2.getD j 0)) (candIndices cfg p.1.length)
      (bestCand kNULL cfg t p j) :=
  isFirstMax_firstMax _ (candIndices_sorted cfg _)
    (List.ne_nil_of_mem (one_mem_candIndices cfg (List.length_pos.mpr hs)))

/-- Every link of `alignmentLine` names a source position and a target
position of the pair, in the order the mode prints them. -/
theorem link_mem_alignmentLine {kNULL : WordID} {cfg : Config R} {t : TTable R}
    {p : List WordID × List WordID} {x y : Nat} (hs : p.1 ≠ [])
    (h : Out.link x y ∈ alignmentLine kNULL cfg t p) :
    if cfg.reverse then x < p.2.length ∧ y < p.1.length else x < p.1.length ∧ y < p.2.length := by
  unfold alignmentLine at h
  rcases List.mem_append.mp h with h | h
  · rcases mem_intersperse h with h | h
    · obtain ⟨j, hj, h⟩ := List.mem_flatMap.mp h
      have ha := le_of_mem_candIndices (isFirstMax_bestCand kNULL cfg t p j hs).1
      rw [List.mem_range] at hj
      unfold linkOf at h
      split_ifs at h with h0
      · simp at h
      · cases hr : cfg.reverse <;> simp [specLink, hr] at h ⊢ <;> omega
    · cases h
  · simp at h

/-- A non-negative table and a prior in `[0, 1)` beat the seed `-1`. -/
theorem seed_beaten {cfg : Config ℝ} {t : TTable ℝ} (ht : ∀ e f, 0 ≤ t.prob e f)
    (hp : cfg.favor_diagonal → 0 ≤ cfg.prob_align_null ∧ cfg.prob_align_null < 1)
    (kNULL : WordID) (src : List WordID) (J j : Nat) (f : WordID) (hs : src ≠ []) :
    -1 < candProb kNULL cfg t src J j f 1 :=
  lt_of_lt_of_le (by norm_num)
    (mul_nonneg (ht _ _) (candPrior_nonneg (List.length_pos.mpr hs) hp 1))

/-- The last pass, when it writes alignments, under a non-negative table and a
prior in `[0, 1)`: it prints one `alignmentLine` per corpus line — the links
of the first maxima, `NULL` left out, single spaces between them — and records
every position's Viterbi edge; each `bestCand` is the first maximum of the
candidates' products, and every printed link's first number is below the
number of words left of ` ||| ` and its second below the number right of it. -/
theorem final_pass_alignments (ext : Externals ℝ) (cfg : Config ℝ) (corpus : List String)
    (hne : ∀ l ∈ corpus, (ext.ReadLine l).1 ≠ [] ∧ (ext.ReadLine l).2 ≠ [])
    (iter : Nat) (st : TrainState ℝ) (ht : ∀ e f, 0 ≤ st.s2t.prob e f)
    (hp : cfg.favor_diagonal → 0 ≤ cfg.prob_align_null ∧ cfg.prob_align_null < 1)
    (hfin : cfg.final iter = true) (hw : cfg.write_alignments = true)
    (hh : cfg.hide_training_alignments = false) :
    ∃ st', sweep ext cfg corpus iter st = .ok st' ∧
      st'.out = st.out ++ corpus.flatMap (fun l =>
        alignmentLine ext.kNULL cfg st.s2t (orient cfg.reverse (ext.ReadLine l))) ∧
      (∀ e f, st'.s2t_viterbi.Mem e f ↔ st.s2t_viterbi.Mem e f ∨ ∃ l ∈ corpus,
        (e, f) ∈ viterbiEdges ext.kNULL cfg st.s2t (orient cfg.reverse (ext.ReadLine l))
          (List.range (orient cfg.reverse (ext.ReadLine l)).2.length)) ∧
      ∀ l ∈ corpus, (∀ j, IsFirstMax
          (candProb ext.kNULL cfg st.s2t (orient cfg.reverse (ext.ReadLine l)).1
            (orient cfg.reverse (ext.ReadLine l)).2.length j
            ((orient cfg.reverse (ext.ReadLine l)).2.getD j 0))
          (candIndices cfg (orient cfg.reverse (ext.ReadLine l)).1.length)
          (bestCand ext.kNULL cfg st.s2t (orient cfg.reverse (ext.ReadLine l)) j)) ∧
        ∀ x y, Out.link x y ∈ alignmentLine ext.kNULL cfg st.s2t (orient cfg.reverse (ext.ReadLine l)) →
          x < (ext.ReadLine l).1.length ∧ y < (ext.ReadLine l).2.length := by
  obtain ⟨st', h, -, ho, hv⟩ := sweep_final ext cfg corpus hne iter hfin st
    (fun _ src J j f hs => seed_beaten ht hp ext.kNULL src J j f hs)
  refine ⟨st', h, by simpa [hw, hh] using ho, fun e f => ?_, fun l hl => ?_⟩
  · rw [hv, if_pos (by simp [hw]), UMap.mem_markSeq]
    simp
  · have hs := (orient_ne_nil cfg.reverse _ (hne l hl)).1
    refine ⟨fun j => isFirstMax_bestCand _ _ _ _ j hs, fun x y hxy => ?_⟩
    have hb := link_mem_alignmentLine hs hxy
    cases hr : cfg.reverse <;> simpa [hr, orient] using hb

theorem final_pass_alignments_one_line :
    (∀ l ∈ ["a ||| x"], ((Externals.reading ([1], [2]) : Externals ℝ).ReadLine l).1 ≠ [] ∧
      ((Externals.reading ([1], [2]) : Externals ℝ).ReadLine l).2 ≠ []) ∧
    (∀ e f, 0 ≤ (TrainState.init : TrainState ℝ).s2t.prob e f) ∧
    ((Options.defaults : Options ℝ).config.favor_diagonal →
      0 ≤ (Options.defaults : Options ℝ).config.prob_align_null ∧
        (Options.defaults : Options ℝ).config.prob_align_null < 1) ∧
    (Options.defaults : Options ℝ).config.final 4 = true ∧
    (Options.defaults : Options ℝ).config.write_alignments = true ∧
    (Options.defaults : Options ℝ).config.hide_training_alignments = false ∧
    ∃ st', sweep (Externals.reading ([1], [2])) (Options.defaults : Options ℝ).config ["a ||| x"] 4
        TrainState.init = .ok st' ∧
      st'.out = (TrainState.init : TrainState ℝ).out ++ ["a ||| x"].flatMap (fun l =>
        alignmentLine 0 (Options.defaults : Options ℝ).config TrainState.init.s2t
          (orient false ((Externals.reading ([1], [2]) : Externals ℝ).ReadLine l))) := by
  have hne : ∀ l ∈ ["a ||| x"], ((Externals.reading ([1], [2]) : Externals ℝ).ReadLine l).1 ≠ [] ∧
      ((Externals.reading ([1], [2]) : Externals ℝ).ReadLine l).2 ≠ [] := by
    simp [Externals.reading]
  have ht : ∀ e f, 0 ≤ (TrainState.init : TrainState ℝ).s2t.prob e f := fun e f => by
    norm_num [TrainState.init, TTable.prob_empty]
  have hp : (Options.defaults : Options ℝ).config.favor_diagonal →
      0 ≤ (Options.defaults : Options ℝ).config.prob_align_null ∧
        (Options.defaults : Options ℝ).config.prob_align_null < 1 := by
    norm_num [Options.config, Options.defaults]
  have hfin : (Options.defaults : Options ℝ).config.final 4 = true := rfl
  obtain ⟨st', h, ho, -⟩ := final_pass_alignments _ _ _ hne 4 _ ht hp hfin rfl rfl
  exact ⟨hne, ht, hp, hfin, rfl, rfl, st', h, ho⟩

end Cdec
