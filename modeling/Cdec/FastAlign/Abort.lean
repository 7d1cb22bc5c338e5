import Cdec.FastAlign.Report

/-!
# `Cdec.FastAlign.Abort` — when `main` stops with a message

`main` stops with a message in two places.  Before training, `InitCommandLine`
and line 78 reject the options (`Options.validate`).  During training, line
110 meets a corpus line with an empty side and writes
`Error: <lc>` and the line on `cerr`, then returns `1`.  `lc` is the line's
number in the pass, counted from `1` (line 103).

## What is proved

* `main_error_iff`: `main` stops with a message exactly when the options are
  rejected with it, or when they pass, at least one pass runs, and the message
  is line 110's for the first corpus line with an empty side, numbered by its
  position in the corpus.  In every other case `main` completes.  With
  `-i 0`, or a count of `2^31` or more (read as negative), no pass runs and
  the corpus is never checked.

The step is `trainLine_error_iff`: a line stops the pass exactly when a side
is empty, whichever way `--reverse` orients it.  `lines_error_iff` threads the
line counter through a pass.  `trainRun_error_iff` shows the first pass stops
the run, and every later pass would stop at the same line.
-/

namespace Cdec

variable {R : Type}

/-- `line` is the first line of `corpus` with an empty side, and `pre` is the
list of lines before it. -/
def FirstEmptySide (ext : Externals R) (corpus pre : List String) (line : String) : Prop :=
  (∃ post, corpus = pre ++ line :: post) ∧
    (∀ l ∈ pre, (ext.ReadLine l).1 ≠ [] ∧ (ext.ReadLine l).2 ≠ []) ∧
    ((ext.ReadLine line).1 = [] ∨ (ext.ReadLine line).2 = [])

/-- The first line with an empty side of `l₀ :: ls` is `l₀`, or the first of
`ls` when `l₀` has two sides. -/
theorem firstEmptySide_cons (ext : Externals R) (l₀ : String) (ls pre : List String)
    (line : String) :
    FirstEmptySide ext (l₀ :: ls) pre line ↔
      (pre = [] ∧ line = l₀ ∧ ((ext.ReadLine l₀).1 = [] ∨ (ext.ReadLine l₀).2 = [])) ∨
      ((ext.ReadLine l₀).1 ≠ [] ∧ (ext.ReadLine l₀).2 ≠ []) ∧
        ∃ pre', pre = l₀ :: pre' ∧ FirstEmptySide ext ls pre' line := by
  constructor
  · rintro ⟨⟨post, hc⟩, hpre, hl⟩
    rcases List.cons_eq_append_iff.mp hc with ⟨rfl, hc'⟩ | ⟨pre', rfl, hc'⟩
    · obtain ⟨rfl, -⟩ := List.cons_eq_cons.mp hc'
      exact .inl ⟨rfl, rfl, hl⟩
    · exact .inr ⟨hpre l₀ (List.mem_cons_self _ _), pre', rfl, ⟨post, hc'⟩,
        fun l h => hpre l (List.mem_cons_of_mem _ h), hl⟩
  · rintro (⟨rfl, rfl, hl⟩ | ⟨hl₀, pre', rfl, ⟨post, hc⟩, hpre, hl⟩)
    · exact ⟨⟨ls, rfl⟩, by simp, hl⟩
    · refine ⟨⟨post, by rw [hc, List.cons_append]⟩, ?_, hl⟩
      rintro l (_ | ⟨_, h⟩)
      exacts [hl₀, hpre l h]

variable [LinearOrderedField R] [CMath R]

section Pass

variable {ext : Externals R} {cfg : Config R} {iter : Nat}

/-- Line 109 sees the sides after the swap of `--reverse`; one is empty
exactly when one was before. -/
theorem orient_eq_nil_iff (reverse : Bool) (p : List WordID × List WordID) :
    (orient reverse p).1.length = 0 ∨ (orient reverse p).2.length = 0 ↔ p.1 = [] ∨ p.2 = [] := by
  cases reverse <;> simp [orient, or_comm]

/-- A line stops the pass exactly when a side is empty, with the message of
line 110 and the line's number `lc + 1`; any other line goes on, counted. -/
theorem trainLine_error_iff (st : TrainState R) (line : String) (msg : String) :
    trainLine ext cfg iter st line = .error msg ↔
      ((ext.ReadLine line).1 = [] ∨ (ext.ReadLine line).2 = []) ∧
        msg = "Error: " ++ toString (st.lc + 1) ++ "\n" ++ line ++ "\n" := by
  unfold trainLine
  dsimp only
  rw [← orient_eq_nil_iff cfg.reverse]
  split_ifs with h
  · rw [Except.error.injEq, eq_comm]
    exact (and_iff_right h).symm
  · exact ⟨nofun, fun hm => absurd hm.1 h⟩

/-- The line loop stops exactly at the first line with an empty side, which
it numbers by its position after the `lc` it starts from. -/
theorem lines_error_iff : ∀ (corpus : List String) (st : TrainState R) (msg : String),
    corpus.foldlM (trainLine ext cfg iter) st = .error msg ↔
      ∃ pre line, FirstEmptySide ext corpus pre line ∧
        msg = "Error: " ++ toString (st.lc + pre.length + 1) ++ "\n" ++ line ++ "\n"
  | [], st, msg => by simp [FirstEmptySide, pure, Except.pure]
  | l :: corpus, st, msg => by
    simp only [firstEmptySide_cons]
    by_cases hl : (ext.ReadLine l).1 = [] ∨ (ext.ReadLine l).2 = []
    · have hne : ¬ ((ext.ReadLine l).1 ≠ [] ∧ (ext.ReadLine l).2 ≠ []) := by tauto
      rw [List.foldlM_cons, (trainLine_error_iff st l _).mpr ⟨hl, rfl⟩, error_bind]
      simp only [hne, false_and, or_false]
      constructor
      · rintro ⟨⟩
        exact ⟨[], l, ⟨rfl, rfl, hl⟩, rfl⟩
      · rintro ⟨_, _, ⟨rfl, rfl, -⟩, rfl⟩
        rfl
    · have hne : (ext.ReadLine l).1 ≠ [] ∧ (ext.ReadLine l).2 ≠ [] := not_or.mp hl
      obtain ⟨st₁, h₁, -⟩ := trainLine_spec ext cfg iter st l hne
      have hlc : ∀ pre : List String, st₁.lc + pre.length + 1 = st.lc + (l :: pre).length + 1 := by
        intro pre
        rw [(trainLine_lengths h₁).1, List.length_cons]
        omega
      rw [List.foldlM_cons, h₁, ok_bind, lines_error_iff corpus st₁ msg]
      simp only [hl, and_false, false_or]
      constructor
      · rintro ⟨pre, line, hf, rfl⟩
        exact ⟨l :: pre, line, ⟨hne, pre, rfl, hf⟩, by rw [hlc]⟩
      · rintro ⟨_, line, ⟨-, pre, rfl, hf⟩, rfl⟩
        exact ⟨pre, line, hf, by rw [hlc]⟩

/-- A pass stops exactly at the first line with an empty side, numbered from
`1`, since `lc` starts every pass at `0` (line 95). -/
theorem sweep_error_iff (ext : Externals R) (cfg : Config R) (corpus : List String) (n : Nat)
    (st : TrainState R) (msg : String) :
    sweep ext cfg corpus n st = .error msg ↔
      ∃ pre line, FirstEmptySide ext corpus pre line ∧
        msg = "Error: " ++ toString (pre.length + 1) ++ "\n" ++ line ++ "\n" := by
  simp only [sweep, lines_error_iff, zero_add]

/-- After the line loop a pass cannot stop: the report and the M-step always
complete. -/
theorem iteration_error_iff (corpus : List String) (n : Nat) (st : TrainState R) (msg : String) :
    iteration ext cfg corpus n st = .error msg ↔ sweep ext cfg corpus n st = .error msg := by
  simp only [iteration, bind_pure_comp, map_error]

/-- A run of `n` passes stops exactly when `n` is positive and the corpus has
a line with an empty side.  The first pass stops at the first such line, and
a later pass would stop at the same line with the same message. -/
theorem trainRun_error_iff (ext : Externals R) (cfg : Config R) (corpus : List String) :
    ∀ (n : Nat) (msg : String),
    trainRun ext cfg corpus n = .error msg ↔ 0 < n ∧
      ∃ pre line, FirstEmptySide ext corpus pre line ∧
        msg = "Error: " ++ toString (pre.length + 1) ++ "\n" ++ line ++ "\n"
  | 0, msg => by simp [trainRun_zero]
  | n + 1, msg => by
    rw [trainRun_succ, and_iff_right n.succ_pos, ← sweep_error_iff ext cfg corpus 0 TrainState.init]
    cases h : trainRun ext cfg corpus n with
    | error e =>
      have he := (sweep_error_iff ext cfg corpus 0 TrainState.init e).mpr
        ((trainRun_error_iff ext cfg corpus n e).mp h).2
      rw [error_bind, he]
    | ok st =>
      rw [ok_bind, iteration_error_iff, sweep_error_iff, sweep_error_iff]

end Pass

/-- `main` stops with a message exactly when the options are rejected with it,
or when they pass, at least one pass runs, and the message is line 110's for
the first corpus line with an empty side, numbered from `1`.  Otherwise it
completes: with no pass to run the corpus is never checked. -/
theorem main_error_iff (ext : Externals R) (o : Options R) (msg : String) :
    main ext o = .error msg ↔ o.validate = .error msg ∨
      (o.validate = .ok () ∧ 0 < o.config.passes ∧
        ∃ pre line, FirstEmptySide ext (ext.ReadFile (o.input.getD "")) pre line ∧
          msg = "Error: " ++ toString (pre.length + 1) ++ "\n" ++ line ++ "\n") := by
  rw [← trainRun_error_iff ext o.config]
  simp only [main, bind_error, bind_pure_comp, map_error]
  cases o.validate <;> simp

end Cdec
