import Cdec.FastAlign.UMap

/-!
# `Cdec.FastAlign.TTable` — the lexical translation table

`fast_align.cc` keeps `P(f | e)` in a `TTable s2t` and its Viterbi edges in a
`TTable::Word2Word2Double s2t_viterbi`.  `ttables.h` is not among the sources,
so the table is modelled from the specification (§4.1, §5): `prob` reads the
table of the previous pass and answers `1e-9` for a pair it does not hold;
`Increment` adds to a separate table of counts, which `prob` does not read;
`Normalize` and `NormalizeVB` replace the table by the counts divided by
their row totals (the variational update for the latter) and clear the
counts — so the E-step of a pass sees the table the previous pass left, as §5
requires.  A row whose total is `0` is kept, its entries `0 / 0`, which is
`0` by Lean's convention for division by zero (NaN in doubles); the
specification allows such rows to be dropped.

A two-level map gets three operations used throughout: `cell` reads `m[e][f]`
as `operator[]` would (`0` when absent), `bump` is `m[e][f] += x`, and `weigh`
is the sum of every cell against a weight.  `bump` changes `weigh` by exactly
its own summand (`weigh_bump`) — the one fact about accumulation every later
count argument is an instance of.
-/

namespace Cdec

variable {R : Type} [LinearOrderedField R]

/-- `TTable::Word2Double`. -/
abbrev Word2Double (R : Type) := UMap R

/-- `TTable::Word2Word2Double`. -/
abbrev Word2Word2Double (R : Type) := UMap (Word2Double R)

namespace UMap

/-- `m[e][f]`, `0` where absent. -/
def cell (m : UMap (UMap R)) (e f : WordID) : R :=
  ((m.find? e).bind (·.find? f)).getD 0

/-- `m[e][f] += x`. -/
def bump (m : UMap (UMap R)) (e f : WordID) (x : R) : UMap (UMap R) :=
  m.alter e UMap.empty (·.alter f 0 (· + x))

/-- `m[e][f] = 1.0`, how `s2t_viterbi` records an edge. -/
def mark (m : UMap (UMap R)) (e f : WordID) : UMap (UMap R) :=
  m.alter e UMap.empty (·.alter f 0 fun _ => 1)

/-- The pair `(e, f)` has an entry. -/
def Mem (m : UMap (UMap R)) (e f : WordID) : Prop :=
  ∃ row, m.find? e = some row ∧ f ∈ row.keys

/-- The sum over all entries of `m[e][f] * g e f`. -/
def weigh (m : UMap (UMap R)) (g : WordID → WordID → R) : R :=
  m.sum fun e row => row.sum fun f v => v * g e f

theorem cell_bump (m : UMap (UMap R)) (e f e' f' : WordID) (x : R) :
    (m.bump e f x).cell e' f' = m.cell e' f' + if e' = e ∧ f' = f then x else 0 := by
  unfold cell bump
  by_cases he : e' = e
  · subst he
    by_cases hf : f' = f
    · subst hf; cases h : m.find? e' <;> simp [h]
    · cases h : m.find? e' <;> simp [h, UMap.find?_alter_ne _ _ _ hf, hf]
  · simp [UMap.find?_alter_ne _ _ _ he, he]

theorem weigh_bump (m : UMap (UMap R)) (g : WordID → WordID → R) (e f : WordID) (x : R) :
    (m.bump e f x).weigh g = m.weigh g + x * g e f := by
  unfold weigh bump
  rw [UMap.sum_alter _ _ _ _ _ (by rfl)]
  rw [UMap.sum_alter _ _ _ _ _ (by simp)]
  ring

theorem mem_bump (m : UMap (UMap R)) (e f e' f' : WordID) (x : R) :
    (m.bump e f x).Mem e' f' ↔ (e' = e ∧ f' = f) ∨ m.Mem e' f' := by
  unfold Mem bump
  by_cases he : e' = e
  · subst he
    cases h : m.find? e' <;> simp [h, UMap.mem_keys_alter]
  · simp [UMap.find?_alter_ne _ _ _ he, he]

theorem mem_mark (m : UMap (UMap R)) (e f e' f' : WordID) :
    (m.mark e f).Mem e' f' ↔ (e' = e ∧ f' = f) ∨ m.Mem e' f' := by
  unfold Mem mark
  by_cases he : e' = e
  · subst he
    cases h : m.find? e' <;> simp [h, UMap.mem_keys_alter]
  · simp [UMap.find?_alter_ne _ _ _ he, he]

@[simp] theorem cell_empty (e f : WordID) : (UMap.empty : UMap (UMap R)).cell e f = 0 := rfl

@[simp] theorem weigh_empty (g : WordID → WordID → R) : (UMap.empty : UMap (UMap R)).weigh g = 0 :=
  rfl

omit [LinearOrderedField R] in
theorem not_mem_empty (e f : WordID) : ¬ (UMap.empty : UMap (UMap R)).Mem e f := by
  simp [Mem]

omit [LinearOrderedField R] in
/-- Rewriting the values of every row keeps every entry. -/
theorem mem_mapVal_rows (m : UMap (UMap R)) (h : WordID → UMap R → WordID → R → R)
    (e f : WordID) : (m.mapVal fun e cpd => cpd.mapVal (h e cpd)).Mem e f ↔ m.Mem e f := by
  simp [Mem, Option.map_eq_some']

/-- The values of a row of a map whose cells are non-negative. -/
theorem row_nonneg {m : UMap (UMap R)} (h : ∀ e f, 0 ≤ m.cell e f) {e : WordID} {cpd : UMap R}
    (hr : m.find? e = some cpd) : ∀ x ∈ cpd.entries, 0 ≤ x.2 := by
  intro x hx
  simpa [cell, hr, find?_of_mem cpd hx] using h e x.1

/-- A cell of a map whose rows have been rewritten entry by entry. -/
theorem cell_mapVal_rows (m : UMap (UMap R)) (h : WordID → UMap R → WordID → R → R)
    (e f : WordID) : (m.mapVal fun e cpd => cpd.mapVal (h e cpd)).cell e f
      = ((m.find? e).bind fun cpd => (cpd.find? f).map (h e cpd f)).getD 0 := by
  simp only [cell, find?_mapVal]
  cases m.find? e <;> simp

end UMap

/-- Modelled from the spec: `ttables.h` is not part of the sources.  The table
`prob` reads, and the counts `Increment` accumulates for the next `Normalize`. -/
structure TTable (R : Type) where
  ttable : Word2Word2Double R
  counts : Word2Word2Double R

namespace TTable

/-- A table before the first pass. -/
def empty : TTable R := ⟨UMap.empty, UMap.empty⟩

/-- Modelled from the spec: `T[e][f]` if present, else the unseen mass `1e-9`. -/
def prob (t : TTable R) (e f : WordID) : R :=
  ((t.ttable.find? e).bind (·.find? f)).getD 1e-9

/-- Modelled from the spec: `counts[e][f] += x`. -/
def Increment (t : TTable R) (e f : WordID) (x : R) : TTable R :=
  { t with counts := t.counts.bump e f x }

/-- The row total `Σ_f m[e][f]` of one row. -/
def total (cpd : Word2Double R) : R := cpd.sum fun _ v => v

/-- Modelled from the spec: every row of the counts divided by its total
becomes the table; the counts are cleared. -/
def Normalize (t : TTable R) : TTable R :=
  ⟨t.counts.mapVal fun _ cpd => cpd.mapVal fun _ v => v / total cpd, UMap.empty⟩

/-- Modelled from the spec: the variational Bayes update under a symmetric
Dirichlet(`alpha`) prior, `exp (ψ (c + α) - ψ (Σ (c + α)))`, with `ψ` the digamma
function `Md::digamma` supplies. -/
def NormalizeVB [CMath R] (digamma : R → R) (alpha : R) (t : TTable R) : TTable R :=
  ⟨t.counts.mapVal fun _ cpd =>
    let tot := cpd.sum fun _ v => v + alpha
    cpd.mapVal fun _ v => CMath.exp (digamma (v + alpha) - digamma tot), UMap.empty⟩

@[simp] theorem Increment_ttable (t : TTable R) (e f : WordID) (x : R) :
    (t.Increment e f x).ttable = t.ttable := rfl

@[simp] theorem Increment_counts (t : TTable R) (e f : WordID) (x : R) :
    (t.Increment e f x).counts = t.counts.bump e f x := rfl

@[simp] theorem prob_Increment (t : TTable R) (e f : WordID) (x : R) :
    (t.Increment e f x).prob = t.prob := rfl

@[simp] theorem Normalize_counts (t : TTable R) : t.Normalize.counts = UMap.empty := rfl

theorem prob_empty (e f : WordID) : (empty : TTable R).prob e f = 1e-9 := rfl

/-- A table whose cells are non-negative gives non-negative probabilities. -/
theorem prob_nonneg {t : TTable R} (h : ∀ e f, 0 ≤ t.ttable.cell e f) (e f : WordID) :
    0 ≤ t.prob e f := by
  have := h e f
  unfold prob
  unfold UMap.cell at this
  cases hx : (t.ttable.find? e).bind (·.find? f) with
  | none => norm_num
  | some v => simpa [hx] using this

theorem Normalize_mem (t : TTable R) (e f : WordID) :
    t.Normalize.ttable.Mem e f ↔ t.counts.Mem e f :=
  UMap.mem_mapVal_rows _ _ e f

/-- Normalizing non-negative counts gives non-negative values. -/
theorem Normalize_nonneg {t : TTable R} (h : ∀ e f, 0 ≤ t.counts.cell e f) (e f : WordID) :
    0 ≤ t.Normalize.ttable.cell e f := by
  show 0 ≤ (t.counts.mapVal fun _ cpd => cpd.mapVal fun _ v => v / total cpd).cell e f
  rw [UMap.cell_mapVal_rows]
  cases hr : t.counts.find? e with
  | none => simp
  | some cpd =>
    have hrow := UMap.row_nonneg h hr
    have htot : 0 ≤ total cpd := List.sum_nonneg fun x hx => by
      obtain ⟨y, hy, rfl⟩ := List.mem_map.mp hx
      exact hrow y hy
    cases hf : cpd.find? f with
    | none => simp [hf]
    | some v => simpa [hf] using div_nonneg (hrow _ (UMap.mem_of_find? cpd hf)) htot

end TTable

end Cdec
