import Cdec.Corpus.FilterLength

/-!
# `Cdec.Corpus.LineFormat` — the lines `filter-length.pl` reads back

A parallel corpus line is written as the words of the source side separated
by single spaces, ` ||| `, the words of the target side, and a newline.
`filter-length.pl` reads a line back with two splits: `split / \|\|\| /` into
the two sides (lines 36 and 99), then `split /\s+/` of each side into its
words (lines 38-39, 100-101).

## What is proved

* `pairLine_round_trip`: for every two lists of tokens (non-empty, without
  white space, none of them `|||`), the line written from them passes the
  format check of line 37, and both passes read back exactly the two lists:
  the words of each side, and so their numbers.
* `lineLengths_leading_space`: a target side that starts with white space
  (`a |||  b`, two spaces after the separator) is read with one word more
  than it has, because Perl's `split /\s+/` keeps an empty leading field.

## Why the token hypothesis is needed

An empty token would leave two spaces in a row, which `split /\s+/` reads as
one separator; a token with white space in it would be read as two; and the
token `|||` between two spaces is the separator itself.  Nothing else is
assumed: either side may be empty.
-/

namespace Cdec.FilterLength

/-- Words separated by single spaces, as a side of a corpus line is written. -/
def unwords (ws : List (List Char)) : List Char := [' '].intercalate ws

/-- A corpus line as it is written, with the newline `<F>` keeps. -/
def pairLine (fs es : List (List Char)) : String := ⟨unwords fs ++ bars ++ unwords es ++ ['\n']⟩

/-- A word of a side: non-empty, without white space, and not `|||`. -/
def Token (w : List Char) : Prop :=
  w ≠ [] ∧ (∀ c ∈ w, isSpace c = false) ∧ w ≠ ['|', '|', '|']

instance (w : List Char) : Decidable (Token w) := inferInstanceAs (Decidable (_ ∧ _ ∧ _))

theorem bars_eq : bars = [' ', '|', '|', '|', ' '] := rfl

theorem unwords_single (w : List Char) : unwords [w] = w := List.append_nil w

theorem unwords_cons_cons (w w' : List Char) (ws : List (List Char)) :
    unwords (w :: w' :: ws) = w ++ ' ' :: unwords (w' :: ws) := rfl

/-! ## `split /\s+/` of a side -/

section Space

variable {ws : List (List Char)}

theorem splitOnP_unwords : ∀ {ws : List (List Char)}, (∀ w ∈ ws, ∀ c ∈ w, isSpace c = false) →
    ws ≠ [] → (unwords ws).splitOnP isSpace = ws
  | [w], hw, _ => by
    rw [unwords_single, List.splitOnP_eq_single isSpace w fun c hc => by simp [hw w (.head _) c hc]]
  | w :: w' :: ws, hw, _ => by
    rw [unwords_cons_cons, List.splitOnP_first isSpace w (fun c hc => by simp [hw w (.head _) c hc]) ' ' rfl,
      splitOnP_unwords (fun v hv => hw v (.tail _ hv)) (List.cons_ne_nil _ _)]

theorem splitOnP_unwords_newline : ∀ {ws : List (List Char)}, (∀ w ∈ ws, ∀ c ∈ w, isSpace c = false) →
    ws ≠ [] → (unwords ws ++ ['\n']).splitOnP isSpace = ws ++ [[]]
  | [w], hw, _ => by
    rw [unwords_single, List.splitOnP_first isSpace w (fun c hc => by simp [hw w (.head _) c hc]) '\n' rfl]
    rfl
  | w :: w' :: ws, hw, _ => by
    rw [unwords_cons_cons, List.append_assoc, List.cons_append,
      List.splitOnP_first isSpace w (fun c hc => by simp [hw w (.head _) c hc]) ' ' rfl,
      splitOnP_unwords_newline (fun v hv => hw v (.tail _ hv)) (List.cons_ne_nil _ _)]
    rfl

/-- A side that starts with a token does not start with white space. -/
theorem head?_unwords_append {w : List Char} (hw : Token w) (ws : List (List Char)) (t : List Char) :
    (unwords (w :: ws) ++ t).head?.any isSpace = false := by
  obtain ⟨c, w', rfl⟩ := List.exists_cons_of_ne_nil hw.1
  have hc := hw.2.1 c (.head _)
  cases ws <;> simp [unwords_single, unwords_cons_cons, hc]

/-- `split /\s+/` reads the words back. -/
theorem splitSpace_unwords (hw : ∀ w ∈ ws, Token w) : splitSpace (unwords ws) = ws := by
  rcases ws with _ | ⟨w, ws⟩
  · rfl
  · have hh := head?_unwords_append (hw w (.head _)) ws []
    rw [List.append_nil] at hh
    simp only [splitSpace, splitOnP_unwords (fun v h => (hw v h).2.1) (List.cons_ne_nil _ _), hh,
      Bool.false_and, Bool.false_eq_true, if_false]
    exact List.filter_eq_self.mpr fun v hv => by simp [(hw v hv).1]

/-- `split /\s+/` reads the words back from the target side, which ends
with the newline. -/
theorem splitSpace_unwords_newline (hw : ∀ w ∈ ws, Token w) :
    splitSpace (unwords ws ++ ['\n']) = ws := by
  rcases ws with _ | ⟨w, ws⟩
  · rfl
  · simp only [splitSpace, splitOnP_unwords_newline (fun v h => (hw v h).2.1) (List.cons_ne_nil _ _),
      head?_unwords_append (hw w (.head _)), Bool.false_and, Bool.false_eq_true, if_false]
    rw [List.filter_append, List.filter_eq_self.mpr fun v hv => by simp [(hw v hv).1]]
    simp

end Space

/-! ## `split / \|\|\| /` of a line -/

section Bars

/-- ` ||| ` does not start at a space followed by a token. -/
theorem not_bars_prefix {w r : List Char} (hw : Token w) (hr : ∀ c ∈ r.head?, isSpace c = true) :
    bars.isPrefixOf (' ' :: (w ++ r)) = false := by
  obtain ⟨hne, hs, hbar⟩ := hw
  have hr' : ∀ c ∈ r.head?, c ≠ '|' := fun c hc h => absurd (hr c hc) (by rw [h]; decide)
  match w, r with
  | [], _ => exact absurd rfl hne
  | [a], [] | [a, b], [] | [a, b, c], [] => simp [bars_eq, List.isPrefixOf]
  | [a], c :: _ | [a, b], c :: _ => simp [bars_eq, List.isPrefixOf, (hr' c rfl).symm]
  | [a, b, c], _ :: _ =>
    simp [bars_eq, List.isPrefixOf]
    rintro rfl rfl rfl
    exact absurd rfl hbar
  | a :: b :: c :: d :: _, _ =>
    have hd := hs d (by simp)
    simp [bars_eq, List.isPrefixOf]
    rintro - - - rfl
    exact absurd hd (by decide)

/-- At ` ||| ` the first split ends a field and starts the next after it. -/
theorem splitSepAux_bars (fuel : Nat) (field b : List Char) :
    splitSepAux bars (fuel + 1) field (bars ++ b) = field.reverse :: splitSepAux bars fuel [] b := by
  rw [bars_eq, List.cons_append, splitSepAux, if_pos (by simp [List.isPrefixOf])]
  rfl

/-- The first split reads through a token: ` ||| ` starts with a space. -/
theorem splitSepAux_token {w : List Char} (hw : ∀ c ∈ w, isSpace c = false) (t : List Char) :
    ∀ (fuel : Nat) (field : List Char),
      splitSepAux bars (fuel + w.length) field (w ++ t) = splitSepAux bars fuel (w.reverse ++ field) t := by
  induction w with
  | nil => intro fuel field; rfl
  | cons c w ih =>
    intro fuel field
    have hc : c ≠ ' ' := fun h => absurd (hw c (.head _)) (by rw [h]; decide)
    rw [List.length_cons, ← Nat.add_assoc, List.cons_append, splitSepAux,
      if_neg (by simp [bars_eq, List.isPrefixOf, hc.symm]), ih (fun c' h => hw c' (.tail _ h)),
      List.reverse_cons, List.append_assoc, List.singleton_append]

/-- ` ||| ` does not start at a space before the words of a side, followed by
white space or by nothing. -/
theorem not_bars_prefix_unwords {w : List Char} {ws : List (List Char)} (hw : ∀ v ∈ w :: ws, Token v)
    {t : List Char} (ht : ∀ c ∈ t.head?, isSpace c = true) :
    bars.isPrefixOf (' ' :: (unwords (w :: ws) ++ t)) = false := by
  rcases ws with _ | ⟨w', ws⟩
  · rw [unwords_single]
    exact not_bars_prefix (hw w (.head _)) ht
  · rw [unwords_cons_cons, List.append_assoc]
    exact not_bars_prefix (hw w (.head _)) (by simp [isSpace])

/-- The first split reads through the words of a side followed by white
space or by nothing. -/
theorem splitSepAux_unwords (t : List Char) (ht : ∀ c ∈ t.head?, isSpace c = true) :
    ∀ (ws : List (List Char)), (∀ w ∈ ws, Token w) → ∀ (fuel : Nat) (field : List Char),
      splitSepAux bars (fuel + (unwords ws).length) field (unwords ws ++ t)
        = splitSepAux bars fuel ((unwords ws).reverse ++ field) t
  | [], _, _, _ => rfl
  | [w], hw, fuel, field => by
    rw [unwords_single]
    exact splitSepAux_token (hw w (.head _)).2.1 t fuel field
  | w :: w' :: ws, hw, fuel, field => by
    have hrest := splitSepAux_unwords t ht (w' :: ws) fun v hv => hw v (.tail _ hv)
    rw [unwords_cons_cons, List.length_append, List.length_cons,
      show fuel + (w.length + ((unwords (w' :: ws)).length + 1))
        = (fuel + (unwords (w' :: ws)).length + 1) + w.length by omega,
      List.append_assoc, List.cons_append, splitSepAux_token (hw w (.head _)).2.1, splitSepAux,
      if_neg (by rw [not_bars_prefix_unwords (fun v hv => hw v (.tail _ hv)) ht]; decide), hrest,
      List.reverse_append, List.reverse_cons]
    simp

/-- The target side, up to its newline, is one field. -/
theorem splitSepAux_target {es : List (List Char)} (he : ∀ w ∈ es, Token w) (fuel : Nat)
    (field : List Char) :
    splitSepAux bars (fuel + 2 + (unwords es).length) field (unwords es ++ ['\n'])
      = [field.reverse ++ unwords es ++ ['\n']] := by
  rw [splitSepAux_unwords _ (by simp [isSpace]) es he, bars_eq, splitSepAux,
    if_neg (by simp [List.isPrefixOf]), splitSepAux]
  simp

/-- A line splits at its first ` ||| ` when its source side is words. -/
theorem splitSep_line {fs : List (List Char)} (hf : ∀ w ∈ fs, Token w) (E : List Char) :
    splitSep bars (unwords fs ++ bars ++ E) = unwords fs :: splitSepAux bars (E.length + 5) [] E := by
  rw [splitSep, List.append_assoc, show (unwords fs ++ (bars ++ E)).length + 1
      = ((E.length + 5) + 1) + (unwords fs).length by simp [bars_eq]; omega,
    splitSepAux_unwords _ (by simp [bars_eq, isSpace]) fs hf, List.append_nil, splitSepAux_bars,
    List.reverse_reverse]

/-- The line written from two sides splits into those two sides. -/
theorem splitSep_pairLine {fs es : List (List Char)} (hw : ∀ w ∈ fs ++ es, Token w) :
    splitSep bars (pairLine fs es).toList = [unwords fs, unwords es ++ ['\n']] := by
  obtain ⟨hf, he⟩ := List.forall_mem_append.mp hw
  have hl : (pairLine fs es).toList = unwords fs ++ bars ++ (unwords es ++ ['\n']) := by
    simp only [pairLine, List.append_assoc]
    rfl
  rw [hl, splitSep_line hf, List.length_append,
    show (unwords es).length + ['\n'].length + 5 = 4 + 2 + (unwords es).length by simp; omega,
    splitSepAux_target he]
  rfl

end Bars

/-! ## Both passes read a written line back -/

/-- A line written from two lists of tokens passes the format check of line
37, and both passes read it back: `split / \|\|\| /` gives its two sides, and
`split /\s+/` gives the words of each side. -/
theorem pairLine_round_trip {fs es : List (List Char)} (hw : ∀ w ∈ fs ++ es, Token w) :
    splitBars (pairLine fs es).toList = [unwords fs, unwords es ++ ['\n']] ∧
      splitSpace (unwords fs) = fs ∧ splitSpace (unwords es ++ ['\n']) = es ∧
      lineLengths (pairLine fs es) = (fs.length, es.length) := by
  obtain ⟨hf, he⟩ := List.forall_mem_append.mp hw
  refine ⟨?_, splitSpace_unwords hf, splitSpace_unwords_newline he, ?_⟩
  · rw [splitBars, splitSep_pairLine hw]
    simp
  · unfold lineLengths
    rw [splitSep_pairLine hw]
    simp [splitSpace_unwords hf, splitSpace_unwords_newline he]

theorem pairLine_round_trip_le_chat :
    let fs := [['l', 'e'], ['c', 'h', 'a', 't']]
    let es := [['t', 'h', 'e'], ['c', 'a', 't']]
    (∀ w ∈ fs ++ es, Token w) ∧
      splitBars (pairLine fs es).toList = [unwords fs, unwords es ++ ['\n']] ∧
      splitSpace (unwords fs) = fs ∧ splitSpace (unwords es ++ ['\n']) = es ∧
      lineLengths (pairLine fs es) = (fs.length, es.length) := by
  intro fs es
  have hw : ∀ w ∈ fs ++ es, Token w := by decide
  exact ⟨hw, pairLine_round_trip hw⟩

/-- A target side written with white space before its first word, as in
`a |||  b` with two spaces after the separator, is read with one word more
than it has: `split /\s+/` keeps the empty field before the white space. -/
theorem lineLengths_leading_space {fs es : List (List Char)} (hw : ∀ w ∈ fs ++ es, Token w)
    (hne : es ≠ []) :
    lineLengths ⟨unwords fs ++ bars ++ ' ' :: (unwords es ++ ['\n'])⟩ = (fs.length, es.length + 1) := by
  obtain ⟨hf, he⟩ := List.forall_mem_append.mp hw
  obtain ⟨w, es', rfl⟩ := List.exists_cons_of_ne_nil hne
  have hE : splitSepAux bars ((' ' :: (unwords (w :: es') ++ ['\n'])).length + 5) []
      (' ' :: (unwords (w :: es') ++ ['\n'])) = [' ' :: (unwords (w :: es') ++ ['\n'])] := by
    rw [List.length_cons, List.length_append, show (unwords (w :: es')).length + ['\n'].length + 1 + 5
        = 4 + 2 + (unwords (w :: es')).length + 1 by simp; omega, splitSepAux,
      if_neg (by rw [not_bars_prefix_unwords he (by simp [isSpace])]; decide), splitSepAux_target he]
    rfl
  have hsp : isSpace ' ' = true := by decide
  have hs : splitSpace (' ' :: (unwords (w :: es') ++ ['\n'])) = [] :: w :: es' := by
    simp only [splitSpace, List.splitOnP_cons, hsp, if_true,
      splitOnP_unwords_newline (fun v h => (he v h).2.1) (List.cons_ne_nil _ _)]
    rw [List.filter_cons, List.filter_append, List.filter_eq_self.mpr fun v hv => by simp [(he v hv).1]]
    simp [hsp]
  show ((splitSpace ((splitSep bars (unwords fs ++ bars ++ _)).getD 0 [])).length,
    (splitSpace ((splitSep bars (unwords fs ++ bars ++ _)).getD 1 [])).length) = _
  rw [splitSep_line hf, hE]
  simp [splitSpace_unwords hf, hs]

theorem lineLengths_leading_space_a_b :
    (∀ w ∈ [['a']] ++ [['b']], Token w) ∧ [['b']] ≠ [] ∧
      lineLengths ⟨unwords [['a']] ++ bars ++ ' ' :: (unwords [['b']] ++ ['\n'])⟩ = (1, 2) :=
  have hw : ∀ w ∈ [['a']] ++ [['b']], Token w := by decide
  ⟨hw, List.cons_ne_nil _ _, lineLengths_leading_space hw (List.cons_ne_nil _ _)⟩

end Cdec.FilterLength
