import Cdec.Basic

/-!
# `Cdec.Corpus.FilterLength` — `corpus/filter-length.pl`

The script reads a parallel corpus of lines `f ||| e` twice.  The first
pass checks the format of every line, counts the pairs it discards (an
empty side, a side over `MAX_LENGTH` words, a log length ratio beyond
`log 9`), and collects the log length ratio of every other pair with a side
of at least `AUTOMATIC_INCLUDE_IF_SHORTER_THAN` words.  The mean and the
standard deviation of those ratios then decide, in the second pass, which of
those pairs it prints: the ones within `MAX_ZSCORE` deviations of the mean.
The second pass counts in `$to` every pair it does not skip, and reports the
count as `Lines printed`.

## What is proved

* `pass1_spec`, `pass2_spec`: what each pass leaves, over any corpus; the
  first pass collects the ratios of the `Collected` lines, the second prints
  the `Printed` lines and counts the `Printed` and the `Short` ones.
* `filterLength_spec`: the whole script, whenever it completes, and
  `filterLength_ok`: when it does.
* `lines_printed_eq_printed_add_short`: the reported count exceeds the number of lines
  printed by the number of short pairs, which are never printed.
* `filterLength_error`: on a corpus of well-formed lines the script dies
  dividing by zero unless it collects a ratio and the ratios are not all
  equal; with `filterLength_ok` this decides when it completes
  (`filterLength_completes_iff`).
* `second_pass_tests_collected_lines`: the second pass re-runs the first
  pass's filters, so it tests exactly the collected lines, against the
  statistics of exactly those lines, and every line is discarded, a
  violation or counted in `$to`.
* `worst_zscore_reported`: the reported worst z-score is the largest among
  the collected pairs with both sides longer than
  `AUTOMATIC_INCLUDE_IF_SHORTER_THAN`, and the sentence the first of them.

Left out: the progress marks on `STDERR`, the usage message, the `gunzip`
pipe of a `.gz` corpus, and the errors of `open`; the model reads the lines
of the file.  A line keeps its final newline, as `<F>` returns it.
The arithmetic is exact.  Perl's is in doubles, where the mean of equal
ratios need not be the ratio itself: three lines `a ||| a b c d e f` leave a
deviation of about `2.2e-16`, and the script completes where the exact
deviation is `0` and `filterLength_completes_iff` says it dies.
-/

namespace Cdec.FilterLength

/-! ## Perl's `split` -/

/-- Perl's `\s` on the characters of a `:utf8` line: ASCII white space and the
Unicode separators. -/
def isSpace (c : Char) : Bool :=
  let n := c.toNat
  (9 ≤ n && n ≤ 13) || n == 32 || n == 0x85 || n == 0xA0 || n == 0x1680 ||
    (0x2000 ≤ n && n ≤ 0x200A) || n == 0x2028 || n == 0x2029 || n == 0x202F || n == 0x205F ||
    n == 0x3000

/-- `split /\s+/, $s`: the runs between maximal runs of `\s`, after an empty
field when `$s` starts with one.  Perl drops the empty fields at the end, so
a string of white space alone has no field. -/
def splitSpace (s : List Char) : List (List Char) :=
  let words := (s.splitOnP isSpace).filter fun w => !w.isEmpty
  if (s.head?.any isSpace) && !words.isEmpty then [] :: words else words

/-- The fields of a string between the leftmost non-overlapping occurrences
of `sep`, the current field kept reversed in `field`.  Every step consumes a
character, so `fuel` of the string's length plus one is enough. -/
def splitSepAux (sep : List Char) : Nat → List Char → List Char → List (List Char)
  | 0, field, _ => [field.reverse]
  | _ + 1, field, [] => [field.reverse]
  | fuel + 1, field, c :: cs =>
    if sep.isPrefixOf (c :: cs) then
      field.reverse :: splitSepAux sep fuel [] ((c :: cs).drop sep.length)
    else splitSepAux sep fuel (c :: field) cs

/-- The fields of `s` separated by `sep`, empty ones included. -/
def splitSep (sep s : List Char) : List (List Char) := splitSepAux sep (s.length + 1) [] s

/-- The separator ` ||| ` of the two sides. -/
def bars : List Char := " ||| ".toList

/-- `split / \|\|\| /` into a list of any length (line 36): Perl drops the
empty fields at the end. -/
def splitBars (s : List Char) : List (List Char) :=
  ((splitSep bars s).reverse.dropWhile List.isEmpty).reverse

/-- `scalar @fs` and `scalar @es` of the second pass (lines 99-103): the
words of the first two fields.  `my ($sf, $se) = split ...` splits into at
most three fields, whose first two are those of the unlimited split. -/
def lineLengths (line : String) : Nat × Nat :=
  let fields := splitSep bars line.toList
  ((splitSpace (fields.getD 0 [])).length, (splitSpace (fields.getD 1 [])).length)

/-! ## The settings and the tests on a pair -/

/-- `my $MAX_LENGTH = 99;` -/
def MAX_LENGTH : Nat := 99

/-- `my $AUTOMATIC_INCLUDE_IF_SHORTER_THAN = 6;` -/
def AUTOMATIC_INCLUDE_IF_SHORTER_THAN : Nat := 6

variable {R : Type} [LinearOrderedField R] [CMath R]

/-- `my $MAX_ZSCORE = 1.8;` -/
def MAX_ZSCORE : R := 9 / 5

/-- `my $rat_max = log(9);` -/
def rat_max : R := CMath.log 9

/-- `log($flen) - log($elen)` (lines 60 and 110). -/
def lograt (n : Nat × Nat) : R := CMath.log (n.1 : R) - CMath.log (n.2 : R)

/-- `abs($lograt - $lmean) / $lsd` (line 115). -/
def zscore (lmean lsd : R) (n : Nat × Nat) : R := |lograt n - lmean| / lsd

/-- Neither side is empty nor longer than `MAX_LENGTH` (lines 42-57, 104-107). -/
def InRange (n : Nat × Nat) : Prop :=
  ¬ (n.1 = 0 ∨ n.2 = 0 ∨ n.1 > MAX_LENGTH ∨ n.2 > MAX_LENGTH)

/-- A side has at least `AUTOMATIC_INCLUDE_IF_SHORTER_THAN` words (lines 58-59, 108-109). -/
def IsLong (n : Nat × Nat) : Prop :=
  n.2 ≥ AUTOMATIC_INCLUDE_IF_SHORTER_THAN ∨ n.1 ≥ AUTOMATIC_INCLUDE_IF_SHORTER_THAN

/-- A pair whose log ratio the first pass collects. -/
def Collected (R : Type) [LinearOrderedField R] [CMath R] (n : Nat × Nat) : Prop :=
  InRange n ∧ IsLong n ∧ ¬ |(lograt n : R)| > rat_max

/-- A pair the second pass prints. -/
def Printed (lmean lsd : R) (n : Nat × Nat) : Prop :=
  Collected R n ∧ ¬ zscore lmean lsd n > MAX_ZSCORE

/-- A pair in range with both sides shorter than
`AUTOMATIC_INCLUDE_IF_SHORTER_THAN`: "if both are shorter, include". -/
def Short (n : Nat × Nat) : Prop := InRange n ∧ ¬ IsLong n

/-- A pair the second pass counts in `$zviol`: collected, but more than
`MAX_ZSCORE` deviations from the mean. -/
def ZViolation (lmean lsd : R) (n : Nat × Nat) : Prop :=
  Collected R n ∧ zscore lmean lsd n > MAX_ZSCORE

/-- A pair the second pass weighs for `$worstz` (lines 116-117): collected,
with both sides longer than `AUTOMATIC_INCLUDE_IF_SHORTER_THAN`. -/
def Weighed (R : Type) [LinearOrderedField R] [CMath R] (n : Nat × Nat) : Prop :=
  Collected R n ∧ n.2 > AUTOMATIC_INCLUDE_IF_SHORTER_THAN ∧ n.1 > AUTOMATIC_INCLUDE_IF_SHORTER_THAN

instance (n : Nat × Nat) : Decidable (InRange n) := inferInstanceAs (Decidable (¬ (_ ∨ _ ∨ _ ∨ _)))
instance (n : Nat × Nat) : Decidable (IsLong n) := inferInstanceAs (Decidable (_ ∨ _))
instance (n : Nat × Nat) : Decidable (Collected R n) := inferInstanceAs (Decidable (_ ∧ _))
instance (lmean lsd : R) (n : Nat × Nat) : Decidable (Printed lmean lsd n) :=
  inferInstanceAs (Decidable (_ ∧ _))
instance (n : Nat × Nat) : Decidable (Short n) := inferInstanceAs (Decidable (_ ∧ _))
instance (lmean lsd : R) (n : Nat × Nat) : Decidable (ZViolation lmean lsd n) :=
  inferInstanceAs (Decidable (_ ∧ _))
instance (n : Nat × Nat) : Decidable (Weighed R n) := inferInstanceAs (Decidable (_ ∧ _))

theorem Collected.not_short {n : Nat × Nat} (h : Collected R n) : ¬ Short n := fun hs => hs.2 h.2.1

/-! ## The first pass, lines 23-68 -/

/-- The variables of the first pass. -/
structure Pass1 (R : Type) where
  lrm : R
  zerof : Nat
  zeroe : Nat
  absbadrat : Nat
  overlene : Nat
  overlenf : Nat
  lines : Nat
  lograts : List R

/-- Lines 23-31. -/
def Pass1.init : Pass1 R := ⟨0, 0, 0, 0, 0, 0, 0, []⟩

/-- `$pass1_discard` (line 81). -/
def Pass1.discard (st : Pass1 R) : Nat :=
  st.zerof + st.zeroe + st.absbadrat + st.overlene + st.overlenf

omit [CMath R] in
@[simp] theorem Pass1.discard_init : (Pass1.init : Pass1 R).discard = 0 := rfl

/-- One line of the first pass, lines 33-67. -/
def pass1Line (st : Pass1 R) (line : String) : Except String (Pass1 R) :=
  let st := { st with lines := st.lines + 1 }
  match splitBars line.toList with
  | [sf, se] =>
    let flen := (splitSpace sf).length
    let elen := (splitSpace se).length
    if flen = 0 then .ok { st with zerof := st.zerof + 1 }
    else if elen = 0 then .ok { st with zeroe := st.zeroe + 1 }
    else if flen > MAX_LENGTH then .ok { st with overlenf := st.overlenf + 1 }
    else if elen > MAX_LENGTH then .ok { st with overlene := st.overlene + 1 }
    else if elen ≥ AUTOMATIC_INCLUDE_IF_SHORTER_THAN ∨ flen ≥ AUTOMATIC_INCLUDE_IF_SHORTER_THAN then
      let lr : R := lograt (flen, elen)
      if |lr| > rat_max then .ok { st with absbadrat := st.absbadrat + 1 }
      else .ok { st with lrm := st.lrm + lr, lograts := st.lograts ++ [lr] }
    else .ok st
  | _ => .error ("Bad format: " ++ line)

/-- Lines 72-78: the mean and the standard deviation of the collected
ratios.  Perl dies dividing by the length of an empty list. -/
def statistics (st : Pass1 R) : Except String (R × R) :=
  if st.lograts.length = 0 then .error "Illegal division by zero"
  else
    let lmean := st.lrm / st.lograts.length
    let lsd := st.lograts.foldl (fun s lr => s + (lr - lmean) ^ 2) 0
    .ok (lmean, CMath.sqrt (lsd / st.lograts.length))

/-! ## The second pass, lines 90-125 -/

/-- The variables of the second pass, and the lines printed. -/
structure Pass2 (R : Type) where
  /-- `$to`, reported as `Lines printed`. -/
  lines_printed : Nat
  zviol : Nat
  worstz : R
  worst : String
  lines : Nat
  absbadrat : Nat
  printed : List String

/-- Lines 90-94; `$absbadrat` goes on from the first pass. -/
def Pass2.init (absbadrat : Nat) : Pass2 R := ⟨0, 0, -1, "\n", 0, absbadrat, []⟩

/-- One line of the second pass, lines 96-124: only a long pair is printed,
but every pair that is not skipped is counted. -/
def pass2Line (lmean lsd : R) (st : Pass2 R) (line : String) : Except String (Pass2 R) :=
  let st := { st with lines := st.lines + 1 }
  let n := lineLengths line
  let flen := n.1
  let elen := n.2
  if flen = 0 ∨ elen = 0 ∨ flen > MAX_LENGTH ∨ elen > MAX_LENGTH then .ok st
  else if elen ≥ AUTOMATIC_INCLUDE_IF_SHORTER_THAN ∨ flen ≥ AUTOMATIC_INCLUDE_IF_SHORTER_THAN then
    let lr : R := lograt n
    if |lr| > rat_max then .ok { st with absbadrat := st.absbadrat + 1 }
    else if lsd = 0 then .error "Illegal division by zero"
    else
      let z := |lr - lmean| / lsd
      let st := if elen > AUTOMATIC_INCLUDE_IF_SHORTER_THAN ∧
          flen > AUTOMATIC_INCLUDE_IF_SHORTER_THAN ∧ z > st.worstz
        then { st with worstz := z, worst := line } else st
      if z > MAX_ZSCORE then .ok { st with zviol := st.zviol + 1 }
      else .ok { st with printed := st.printed ++ [line], lines_printed := st.lines_printed + 1 }
  else .ok { st with lines_printed := st.lines_printed + 1 }

/-- `int(10000 * $n / $d) / 100`, a rate in percent to two places; the
quotient is non-negative, so `int` is the floor. -/
def discardRate (n d : Nat) : R := ((10000 * n / d : Nat) : R) / 100

/-- What the script writes: the printed lines on `STDOUT`, and the numbers
of its reports on `STDERR` (lines 83-86 and 127-128). -/
structure Result (R : Type) where
  printed : List String
  lines : Nat
  pass1_discard : Nat
  discard_rate : R
  mean_ratio : R
  stddev_ratio : R
  lines_printed : Nat
  zviol : Nat
  discard_rate2 : R
  worstz : R
  worst : String

/-- The script on the lines of a corpus file. -/
def filterLength (corpus : List String) : Except String (Result R) :=
  corpus.foldlM pass1Line Pass1.init >>= fun p1 =>
  statistics p1 >>= fun stats =>
  if p1.lines = 0 then .error "Illegal division by zero" else
  corpus.foldlM (pass2Line stats.1 stats.2) (Pass2.init p1.absbadrat) >>= fun p2 =>
  if p2.lines - p1.discard = 0 then .error "Illegal division by zero" else
  .ok ⟨p2.printed, p1.lines, p1.discard, discardRate p1.discard p1.lines, CMath.exp stats.1,
    CMath.exp stats.2, p2.lines_printed, p2.zviol, discardRate p2.zviol (p2.lines - p1.discard),
    p2.worstz, p2.worst⟩

/-! ## The format check -/

theorem splitSep_eq_splitBars_append (s : List Char) :
    splitSep bars s = splitBars s ++ ((splitSep bars s).reverse.takeWhile List.isEmpty).reverse := by
  rw [splitBars, ← List.reverse_append, List.takeWhile_append_dropWhile, List.reverse_reverse]

/-- On a line of the right format, the first pass counts the words the
second pass counts. -/
theorem lineLengths_of_splitBars {line : String} {sf se : List Char}
    (h : splitBars line.toList = [sf, se]) :
    lineLengths line = ((splitSpace sf).length, (splitSpace se).length) := by
  rw [lineLengths, splitSep_eq_splitBars_append, h]
  rfl

/-! ## What a line does -/

/-- The first pass on one line: it counts the line, collects its ratio if it
is `Collected`, and counts it as discarded unless it is `Collected` or
`Short`. -/
theorem pass1Line_spec {st st' : Pass1 R} {line : String} (h : pass1Line st line = .ok st') :
    let n := lineLengths line
    st'.lines = st.lines + 1 ∧
    st'.lograts = st.lograts ++ (if Collected R n then [lograt n] else []) ∧
    st'.lrm = st.lrm + (if Collected R n then lograt n else 0) ∧
    st'.discard + (if Collected R n ∨ Short n then 1 else 0) = st.discard + 1 := by
  unfold pass1Line at h
  split at h
  · next sf se hs =>
    rw [lineLengths_of_splitBars hs]
    dsimp only at h ⊢
    generalize (splitSpace sf).length = flen at h ⊢
    generalize (splitSpace se).length = elen at h ⊢
    simp only [ite_eq_iff, Except.ok.injEq] at h
    obtain ⟨_, rfl⟩ | ⟨_, ⟨_, rfl⟩ | ⟨_, ⟨_, rfl⟩ | ⟨_, ⟨_, rfl⟩ | ⟨_, ⟨_, ⟨_, rfl⟩ | ⟨_, rfl⟩⟩ |
      ⟨_, rfl⟩⟩⟩⟩⟩ := h <;>
      simp_all [Collected, Short, InRange, IsLong, Pass1.discard] <;> omega
  · cases h

/-- A line the first pass gets through has the format `f ||| e`. -/
theorem pass1Line_format {st st' : Pass1 R} {line : String} (h : pass1Line st line = .ok st') :
    (splitBars line.toList).length = 2 := by
  unfold pass1Line at h
  split at h
  · next hs => rw [hs]; rfl
  · cases h

theorem pass1Line_ok (st : Pass1 R) {line : String} (h : (splitBars line.toList).length = 2) :
    ∃ st', pass1Line st line = .ok st' := by
  obtain ⟨sf, se, hs⟩ : ∃ sf se, splitBars line.toList = [sf, se] := by
    match splitBars line.toList, h with
    | [sf, se], _ => exact ⟨sf, se, rfl⟩
  unfold pass1Line
  rw [hs]
  repeat' first | exact ⟨_, rfl⟩ | apply exists_ite_ok <;> intro _

/-- What one line of the second pass does, by the class of its pair: a pair
neither collected nor short is only counted, a short pair is also counted in
`$to`, and a collected pair may become the worst so far and is then counted
in `$zviol` or printed. -/
theorem pass2Line_cases {lmean lsd : R} {st st' : Pass2 R} {line : String}
    (h : pass2Line lmean lsd st line = .ok st') :
    let n := lineLengths line
    let st₁ := { st with lines := st.lines + 1 }
    let st₂ := if Weighed R n ∧ zscore lmean lsd n > st.worstz
      then { st₁ with worstz := zscore lmean lsd n, worst := line } else st₁
    (¬ Collected R n ∧ ¬ Short n ∧ (st' = st₁ ∨ st' = { st₁ with absbadrat := st.absbadrat + 1 })) ∨
    (Short n ∧ st' = { st₁ with lines_printed := st.lines_printed + 1 }) ∨
    (ZViolation lmean lsd n ∧ st' = { st₂ with zviol := st.zviol + 1 }) ∨
    (Printed lmean lsd n ∧
      st' = { st₂ with printed := st.printed ++ [line], lines_printed := st.lines_printed + 1 }) := by
  unfold pass2Line at h
  dsimp only at h ⊢
  generalize lineLengths line = n at h ⊢
  simp only [ite_eq_iff, Except.ok.injEq, reduceCtorEq, and_false, false_or] at h
  -- the code's guard of the `$worstz` update, on a collected pair
  have hw : Collected R n → ((n.2 > AUTOMATIC_INCLUDE_IF_SHORTER_THAN ∧ n.1 > AUTOMATIC_INCLUDE_IF_SHORTER_THAN ∧
      |lograt n - lmean| / lsd > st.worstz) ↔ Weighed R n ∧ zscore lmean lsd n > st.worstz) :=
    fun hc => by simp only [Weighed, zscore, hc, true_and, and_assoc]
  obtain ⟨h1, rfl⟩ | ⟨h1, ⟨h2, ⟨h3, rfl⟩ | ⟨h3, -, ⟨h5, rfl⟩ | ⟨h5, rfl⟩⟩⟩ | ⟨h2, rfl⟩⟩ := h
  · exact .inl ⟨fun hc => hc.1 h1, fun hs => hs.1 h1, .inl rfl⟩
  · exact .inl ⟨fun hc => hc.2.2 h3, fun hs => hs.2 h2, .inr rfl⟩
  · have hc : Collected R n := ⟨h1, h2, h3⟩
    exact .inr (.inr (.inl ⟨⟨hc, h5⟩, by simp only [hw hc, zscore, apply_ite Pass2.zviol, ite_self]⟩))
  · have hc : Collected R n := ⟨h1, h2, h3⟩
    exact .inr (.inr (.inr ⟨⟨hc, h5⟩, by
      simp only [hw hc, zscore, apply_ite Pass2.printed, apply_ite Pass2.lines_printed, ite_self]⟩))
  · exact .inr (.inl ⟨⟨h1, h2⟩, rfl⟩)

/-- The second pass on one line: it counts the line, prints it if it is
`Printed`, counts it in `$to` if it is `Printed` or `Short`, and in `$zviol`
if it is a `ZViolation`. -/
theorem pass2Line_counts {lmean lsd : R} {st st' : Pass2 R} {line : String}
    (h : pass2Line lmean lsd st line = .ok st') :
    let n := lineLengths line
    st'.lines = st.lines + 1 ∧
    st'.printed = st.printed ++ (if Printed lmean lsd n then [line] else []) ∧
    st'.lines_printed = st.lines_printed + (if Printed lmean lsd n ∨ Short n then 1 else 0) ∧
    st'.zviol = st.zviol + (if ZViolation lmean lsd n then 1 else 0) := by
  rcases pass2Line_cases h with ⟨hc, hs, h⟩ | ⟨hs, rfl⟩ | ⟨hz, rfl⟩ | ⟨hp, rfl⟩
  · rcases h with rfl | rfl <;> simp [Printed, ZViolation, hc, hs]
  · have hc : ¬ Collected R (lineLengths line) := fun hc => hc.not_short hs
    simp [Printed, ZViolation, hs, hc]
  · simp [Printed, hz, hz.2, hz.1.not_short, apply_ite Pass2.lines, apply_ite Pass2.printed,
      apply_ite Pass2.lines_printed]
  · simp [ZViolation, hp, hp.2, hp.1.not_short, apply_ite Pass2.lines, apply_ite Pass2.zviol]

theorem pass2Line_spec {lmean lsd : R} {st st' : Pass2 R} {line : String}
    (h : pass2Line lmean lsd st line = .ok st') :
    let n := lineLengths line
    st'.lines = st.lines + 1 ∧
    st'.printed = st.printed ++ (if Printed lmean lsd n then [line] else []) ∧
    st'.lines_printed = st.lines_printed + (if Printed lmean lsd n ∨ Short n then 1 else 0) :=
  let ⟨hl, hp, hc, _⟩ := pass2Line_counts h
  ⟨hl, hp, hc⟩

/-- The only error of the second pass is the division by `$lsd` (line 115). -/
theorem pass2Line_error {lmean lsd : R} {st : Pass2 R} {line e : String}
    (h : pass2Line lmean lsd st line = .error e) : e = "Illegal division by zero" := by
  unfold pass2Line at h
  dsimp only at h
  simp only [ite_eq_iff, reduceCtorEq, Except.error.injEq, and_false, false_or, or_false] at h
  exact h.2.2.2.2.symm

/-- With a zero deviation the second pass dies on a `Collected` line. -/
theorem pass2Line_sd_zero {lmean : R} {st : Pass2 R} {line : String}
    (hc : Collected R (lineLengths line)) :
    pass2Line lmean 0 st line = .error "Illegal division by zero" := by
  obtain ⟨hr, hl, hm⟩ := hc
  unfold InRange at hr
  unfold IsLong at hl
  simp only [pass2Line, hr, hl, hm, if_false, if_true]

theorem pass2Line_ok (lmean : R) {lsd : R} (hsd : lsd ≠ 0) (st : Pass2 R) (line : String) :
    ∃ st', pass2Line lmean lsd st line = .ok st' := by
  unfold pass2Line
  repeat' first | exact ⟨_, rfl⟩ | apply exists_ite_ok <;> intro _
  exact absurd ‹_› hsd

/-! ## The two passes over a corpus -/

/-- The log ratios the first pass collects from a corpus, in order. -/
def ratios (R : Type) [LinearOrderedField R] [CMath R] (corpus : List String) : List R :=
  (corpus.filter fun l => Collected R (lineLengths l)).map fun l => lograt (lineLengths l)

theorem ratios_cons (line : String) (corpus : List String) :
    ratios R (line :: corpus)
      = (if Collected R (lineLengths line) then [lograt (lineLengths line)] else []) ++ ratios R corpus := by
  by_cases hc : Collected R (lineLengths line) <;> simp [ratios, List.filter_cons, hc]

/-- The first pass collects the ratios of the `Collected` lines, and counts
as discarded every line neither `Collected` nor `Short`. -/
theorem pass1_spec : ∀ (corpus : List String) (st st' : Pass1 R),
    corpus.foldlM pass1Line st = .ok st' →
    st'.lines = st.lines + corpus.length ∧ st'.lograts = st.lograts ++ ratios R corpus ∧
    st'.lrm = st.lrm + (ratios R corpus).sum ∧
    st'.discard + (corpus.filter fun l => Collected R (lineLengths l) ∨ Short (lineLengths l)).length
      = st.discard + corpus.length
  | [], st, st', h => by cases h; simp [ratios]
  | line :: corpus, st, st', h => by
    obtain ⟨st₁, h₁, h⟩ := foldlM_cons_ok.mp h
    obtain ⟨hl, hr, hs, hd⟩ := pass1Line_spec h₁
    obtain ⟨hl', hr', hs', hd'⟩ := pass1_spec corpus st₁ st' h
    refine ⟨by rw [hl', hl]; simp only [List.length_cons]; omega, ?_, ?_, ?_⟩
    · rw [hr', hr, ratios_cons, List.append_assoc]
    · rw [hs', hs, ratios_cons, List.sum_append, add_assoc]
      split_ifs <;> simp
    · by_cases hk : Collected R (lineLengths line) ∨ Short (lineLengths line) <;>
        simp only [List.filter_cons, hk, decide_True, decide_False, if_true, if_false,
          List.length_cons, Bool.false_eq_true] at hd hd' ⊢ <;> omega

/-- The second pass prints the `Printed` lines and counts in `$to` the
`Printed` and the `Short` ones. -/
theorem pass2_spec {lmean lsd : R} : ∀ (corpus : List String) (st st' : Pass2 R),
    corpus.foldlM (pass2Line lmean lsd) st = .ok st' →
    st'.lines = st.lines + corpus.length ∧
    st'.printed = st.printed ++ corpus.filter (fun l => Printed lmean lsd (lineLengths l)) ∧
    st'.lines_printed = st.lines_printed +
      (corpus.filter fun l => Printed lmean lsd (lineLengths l) ∨ Short (lineLengths l)).length
  | [], st, st', h => by cases h; simp
  | line :: corpus, st, st', h => by
    obtain ⟨st₁, h₁, h⟩ := foldlM_cons_ok.mp h
    obtain ⟨hl, hp, hc⟩ := pass2Line_spec h₁
    obtain ⟨hl', hp', hc'⟩ := pass2_spec corpus st₁ st' h
    refine ⟨by rw [hl', hl]; simp only [List.length_cons]; omega, ?_, ?_⟩
    · by_cases hq : Printed lmean lsd (lineLengths line) <;> simp_all [List.filter_cons]
    · by_cases hk : Printed lmean lsd (lineLengths line) ∨ Short (lineLengths line) <;>
        simp only [List.filter_cons, hk, decide_True, decide_False, if_true, if_false,
          List.length_cons, Bool.false_eq_true] at hc hc' ⊢ <;> omega

/-- The second pass counts in `$zviol` the `ZViolation` lines. -/
theorem pass2_zviol {lmean lsd : R} (corpus : List String) (st st' : Pass2 R)
    (h : corpus.foldlM (pass2Line lmean lsd) st = .ok st') :
    st'.zviol = st.zviol + (corpus.filter fun l => ZViolation lmean lsd (lineLengths l)).length :=
  foldlM_count Pass2.zviol (fun l => ZViolation lmean lsd (lineLengths l))
    (fun _ _ _ h => (pass2Line_counts h).2.2.2) corpus st st' h

/-! ## The script -/

/-- The mean and the standard deviation of a list of numbers. -/
def meanSd (xs : List R) : R × R :=
  let lmean := xs.sum / xs.length
  (lmean, CMath.sqrt ((xs.map fun x => (x - lmean) ^ 2).sum / xs.length))

omit [CMath R] in
theorem foldl_add_eq_sum (g : R → R) (xs : List R) (a : R) :
    xs.foldl (fun s x => s + g x) a = a + (xs.map g).sum := by
  induction xs generalizing a with
  | nil => simp
  | cons x xs ih => simp [ih, add_assoc]

/-- Lines 72-78 compute the mean and the standard deviation of the ratios
collected, once there is one. -/
theorem statistics_eq {st : Pass1 R} (h : st.lograts ≠ []) (hl : st.lrm = st.lograts.sum) :
    statistics st = .ok (meanSd st.lograts) := by
  rw [statistics, if_neg (mt List.length_eq_zero.mp h), hl]
  dsimp only
  rw [foldl_add_eq_sum, zero_add]
  rfl

/-- A run that completes: the first pass completes having collected a
ratio, the second runs with the mean and the deviation of the ratios, and
the result reports what the two passes counted. -/
theorem filterLength_inv {corpus : List String} {res : Result R}
    (h : filterLength corpus = .ok res) :
    let m := meanSd (ratios R corpus)
    ∃ p1 p2, corpus.foldlM pass1Line (Pass1.init : Pass1 R) = .ok p1 ∧ ratios R corpus ≠ [] ∧
      corpus.foldlM (pass2Line m.1 m.2) (Pass2.init p1.absbadrat) = .ok p2 ∧
      res = ⟨p2.printed, p1.lines, p1.discard, discardRate p1.discard p1.lines, CMath.exp m.1,
        CMath.exp m.2, p2.lines_printed, p2.zviol, discardRate p2.zviol (p2.lines - p1.discard),
        p2.worstz, p2.worst⟩ := by
  obtain ⟨p1, h1, h⟩ := bind_ok.mp h
  obtain ⟨-, hr1, hs1, -⟩ := pass1_spec corpus Pass1.init p1 h1
  simp only [Pass1.init, List.nil_append, zero_add] at hr1 hs1
  obtain ⟨stats, hm, h⟩ := bind_ok.mp h
  have hne : ratios R corpus ≠ [] := by
    intro he
    rw [statistics, hr1, he] at hm
    cases hm
  rw [statistics_eq (hr1 ▸ hne) (by rw [hs1, hr1]), hr1] at hm
  cases hm
  split at h
  · cases h
  obtain ⟨p2, h2, h⟩ := bind_ok.mp h
  split at h
  · cases h
  cases h
  exact ⟨p1, p2, h1, hne, h2, rfl⟩

/-- Whenever the script completes, it has collected a ratio, and with the
mean and the deviation of the ratios it prints the `Printed` lines and
reports as `Lines printed` the number of `Printed` and `Short` ones. -/
theorem filterLength_spec {corpus : List String} {res : Result R}
    (h : filterLength corpus = .ok res) :
    let m := meanSd (ratios R corpus)
    ratios R corpus ≠ [] ∧
    res.printed = corpus.filter (fun l => Printed m.1 m.2 (lineLengths l)) ∧
    res.lines_printed =
      (corpus.filter fun l => Printed m.1 m.2 (lineLengths l) ∨ Short (lineLengths l)).length := by
  obtain ⟨p1, p2, -, hne, h2, rfl⟩ := filterLength_inv h
  obtain ⟨-, hp2, hc2⟩ := pass2_spec corpus _ p2 h2
  exact ⟨hne, by simpa [Pass2.init] using hp2, by simpa [Pass2.init] using hc2⟩

/-- The script completes on a corpus of well-formed lines from which the
first pass collects ratios that are not all equal. -/
theorem filterLength_ok {corpus : List String}
    (hf : ∀ l ∈ corpus, (splitBars l.toList).length = 2) (hr : ratios R corpus ≠ [])
    (hsd : (meanSd (ratios R corpus)).2 ≠ 0) :
    ∃ res : Result R, filterLength corpus = .ok res := by
  obtain ⟨p1, h1⟩ := foldlM_ok corpus (Pass1.init : Pass1 R) fun l hl st => pass1Line_ok st (hf l hl)
  obtain ⟨hl1, hr1, hs1, hd1⟩ := pass1_spec corpus Pass1.init p1 h1
  simp only [Pass1.init, Pass1.discard, List.nil_append, zero_add] at hl1 hr1 hs1 hd1
  have hstat := statistics_eq (hr1 ▸ hr) (by rw [hs1, hr1])
  rw [hr1] at hstat
  obtain ⟨p2, h2⟩ := foldlM_ok corpus (Pass2.init p1.absbadrat) fun l _ st =>
    pass2Line_ok (meanSd (ratios R corpus)).1 hsd st l
  obtain ⟨hl2, -, -⟩ := pass2_spec corpus _ p2 h2
  simp only [Pass2.init, zero_add] at hl2
  have hkept : (ratios R corpus).length ≤
      (corpus.filter fun l => Collected R (lineLengths l) ∨ Short (lineLengths l)).length := by
    rw [ratios, List.length_map]
    exact (List.monotone_filter_right corpus fun l h => by simp_all).length_le
  have hpos := List.length_pos.mpr hr
  have hd : ¬ p2.lines - p1.discard = 0 := by rw [Pass1.discard]; omega
  simp only [filterLength, h1, hstat, h2, bind, Except.bind, if_neg hd,
    if_neg (show ¬ p1.lines = 0 by omega)]
  exact ⟨_, rfl⟩

theorem length_filter_or {α : Type} (p q : α → Prop) [DecidablePred p] [DecidablePred q]
    (h : ∀ a, p a → ¬ q a) (l : List α) :
    (l.filter fun a => p a ∨ q a).length = (l.filter (p ·)).length + (l.filter (q ·)).length := by
  induction l with
  | nil => rfl
  | cons a l ih =>
    by_cases hp : p a <;> by_cases hq : q a
    · exact absurd hq (h a hp)
    all_goals simp only [List.filter_cons, hp, hq, decide_True, decide_False, if_true, if_false,
      or_true, or_false, Bool.false_eq_true, List.length_cons, ih] <;> omega

/-- `Lines printed` exceeds the number of lines printed by the number of
short pairs, which are counted and never printed. -/
theorem lines_printed_eq_printed_add_short {corpus : List String} {res : Result R}
    (h : filterLength corpus = .ok res) :
    res.lines_printed = res.printed.length + (corpus.filter fun l => Short (lineLengths l)).length := by
  obtain ⟨-, hp, hc⟩ := filterLength_spec h
  rw [hp, hc, length_filter_or]
  exact fun l hl hs => hs.2 hl.1.2.1

/-! ## Concrete corpora -/

/-- As many words on each side, at least six: ratio `0`, collected. -/
theorem collected_same {k : Nat} (h6 : 6 ≤ k) (h99 : k ≤ 99) :
    (lograt (k, k) : ℝ) = 0 ∧ Collected ℝ (k, k) :=
  have l : (lograt (k, k) : ℝ) = 0 := sub_self _
  ⟨l, by unfold InRange MAX_LENGTH; omega, by unfold IsLong AUTOMATIC_INCLUDE_IF_SHORTER_THAN; omega,
    by rw [l, abs_zero, rat_max, CMath.log_real]; exact not_lt.mpr (Real.log_nonneg (by norm_num))⟩

/-- Twice as many words on the left, at least six on the right: ratio
`log 2`, collected. -/
theorem collected_double {k : Nat} (h6 : 6 ≤ k) (h99 : 2 * k ≤ 99) :
    (lograt (2 * k, k) : ℝ) = Real.log 2 ∧ Collected ℝ (2 * k, k) := by
  have hk : (k : ℝ) ≠ 0 := by exact_mod_cast (show k ≠ 0 by omega)
  have l : (lograt (2 * k, k) : ℝ) = Real.log 2 := by
    rw [lograt, CMath.log_real, CMath.log_real, Nat.cast_mul, Nat.cast_two,
      Real.log_mul two_ne_zero hk, add_sub_cancel_right]
  have h9 : Real.log 2 ≤ rat_max := Real.log_le_log two_pos (by norm_num)
  exact ⟨l, by unfold InRange MAX_LENGTH; omega, by unfold IsLong AUTOMATIC_INCLUDE_IF_SHORTER_THAN; omega,
    by simp [l, abs_of_pos (Real.log_pos one_lt_two), h9]⟩

/-- The mean and the deviation of two ratios `0` and `a > 0`: both `a / 2`. -/
theorem meanSd_zero_pos (a : ℝ) (ha : 0 < a) : meanSd [0, a] = (a / 2, a / 2) := by
  have hm : ([0, a] : List ℝ).sum / ([0, a] : List ℝ).length = a / 2 := by simp
  have hv : (([0, a] : List ℝ).map fun x => (x - a / 2) ^ 2).sum / ([0, a] : List ℝ).length
      = (a / 2) ^ 2 := by
    simp only [List.map_cons, List.map_nil, List.sum_cons, List.sum_nil, List.length_cons,
      List.length_nil]
    push_cast
    ring
  simp only [meanSd, hm, hv, CMath.sqrt_real, Real.sqrt_sq (half_pos ha).le]

/-- The script completes on a well-formed corpus whose ratios are `0` and
`log 2`. -/
theorem filterLength_ok_zero_log_two {corpus : List String}
    (hf : ∀ l ∈ corpus, (splitBars l.toList).length = 2) (hr : ratios ℝ corpus = [0, Real.log 2]) :
    ∃ res : Result ℝ, filterLength corpus = .ok res :=
  have ha : 0 < Real.log 2 := Real.log_pos one_lt_two
  filterLength_ok hf (by simp [hr]) (by rw [hr, meanSd_zero_pos _ ha]; exact (half_pos ha).ne')

/-- Against the mean and the deviation `log 2 / 2` of the ratios `0` and
`log 2`, a pair of either ratio has z-score `1`. -/
theorem zscore_half_log_two {n : Nat × Nat} (h : (lograt n : ℝ) = 0 ∨ (lograt n : ℝ) = Real.log 2) :
    zscore (Real.log 2 / 2) (Real.log 2 / 2) n = 1 := by
  have hh := half_pos (Real.log_pos one_lt_two)
  rw [zscore]
  rcases h with h | h <;> rw [h]
  · rw [zero_sub, abs_neg, abs_of_pos hh, div_self hh.ne']
  · rw [show Real.log 2 - Real.log 2 / 2 = Real.log 2 / 2 by ring, abs_of_pos hh, div_self hh.ne']

/-- On a corpus of two long pairs, of ratios `0` and `log 2`, and the short
pair `a ||| b`, the script prints the two long pairs and reports three lines
printed: the short pair, one word on each side, is counted and not printed. -/
theorem short_pair_counted_not_printed :
    ∃ res : Result ℝ, filterLength ["a b c d e f ||| a b c d e f\n",
        "a b c d e f a b c d e f ||| a b c d e f\n", "a ||| b\n"] = .ok res ∧
      res.printed = ["a b c d e f ||| a b c d e f\n", "a b c d e f a b c d e f ||| a b c d e f\n"] ∧
      res.lines_printed = 3 := by
  have h1 : lineLengths "a b c d e f ||| a b c d e f\n" = (6, 6) := by decide
  have h2 : lineLengths "a b c d e f a b c d e f ||| a b c d e f\n" = (12, 6) := by decide
  have h3 : lineLengths "a ||| b\n" = (1, 1) := by decide
  have ha : 0 < Real.log 2 := Real.log_pos one_lt_two
  obtain ⟨l1, c1⟩ : (lograt (6, 6) : ℝ) = 0 ∧ Collected ℝ (6, 6) := collected_same le_rfl (by norm_num)
  obtain ⟨l2, c2⟩ : (lograt (12, 6) : ℝ) = Real.log 2 ∧ Collected ℝ (12, 6) :=
    collected_double (k := 6) le_rfl (by norm_num)
  have c3 : Short (1, 1) := by decide
  have c3' : ¬ Collected ℝ (1, 1) := fun h => c3.2 h.2.1
  have hr : ratios ℝ ["a b c d e f ||| a b c d e f\n",
      "a b c d e f a b c d e f ||| a b c d e f\n", "a ||| b\n"] = [0, Real.log 2] := by
    simp only [ratios, List.filter_cons, h1, h2, h3, c1, c2, c3', decide_True, decide_False,
      if_true, if_false, Bool.false_eq_true, List.filter_nil, List.map_cons, List.map_nil, l1, l2]
  have hz : zscore (Real.log 2 / 2) (Real.log 2 / 2) (6, 6) = 1 ∧
      zscore (Real.log 2 / 2) (Real.log 2 / 2) (12, 6) = 1 :=
    ⟨zscore_half_log_two (.inl l1), zscore_half_log_two (.inr l2)⟩
  have hmax : ¬ (1 : ℝ) > MAX_ZSCORE := by norm_num [MAX_ZSCORE]
  have hf : ∀ l ∈ ["a b c d e f ||| a b c d e f\n", "a b c d e f a b c d e f ||| a b c d e f\n",
      "a ||| b\n"], (splitBars l.toList).length = 2 := by decide
  obtain ⟨res, hres⟩ := filterLength_ok_zero_log_two hf hr
  obtain ⟨-, hp, hc⟩ := filterLength_spec hres
  rw [hr, meanSd_zero_pos _ ha] at hp hc
  refine ⟨res, hres, ?_, ?_⟩
  · simp only [hp, List.filter_cons, h1, h2, h3, Printed, c1, c2, c3', hz, hmax, true_and,
      false_and, not_false_eq_true, decide_True, decide_False, if_true, if_false,
      Bool.false_eq_true, List.filter_nil]
  · simp only [hc, List.filter_cons, h1, h2, h3, Printed, c1, c2, c3, hz, hmax, true_and,
      not_false_eq_true, true_or, or_true, decide_True, if_true, List.filter_nil,
      List.length_cons, List.length_nil]

/-! ## When the script dies -/

/-- On a corpus that passes the format check, the script dies dividing by
zero when the first pass collects no ratio (line 72) or the ratios have a
zero deviation (line 115, on the first collected line). -/
theorem filterLength_error {corpus : List String}
    (hf : ∀ l ∈ corpus, (splitBars l.toList).length = 2)
    (h0 : ratios R corpus = [] ∨ (meanSd (ratios R corpus)).2 = 0) :
    filterLength (R := R) corpus = .error "Illegal division by zero" := by
  obtain ⟨p1, h1⟩ := foldlM_ok corpus (Pass1.init : Pass1 R) fun l hl st => pass1Line_ok st (hf l hl)
  obtain ⟨hl1, hr1, hs1, -⟩ := pass1_spec corpus Pass1.init p1 h1
  simp only [Pass1.init, List.nil_append, zero_add] at hl1 hr1 hs1
  by_cases hr : ratios R corpus = []
  · have hstat : statistics p1 = .error "Illegal division by zero" := by
      rw [statistics, hr1, hr]; rfl
    simp only [filterLength, h1, hstat, bind, Except.bind]
  · obtain ⟨l, hl, hc⟩ : ∃ l ∈ corpus, Collected R (lineLengths l) := by
      simpa [ratios, List.filter_eq_nil_iff] using hr
    have hstat := statistics_eq (hr1 ▸ hr) (by rw [hs1, hr1])
    rw [hr1] at hstat
    have h2 : corpus.foldlM (pass2Line (meanSd (ratios R corpus)).1 (meanSd (ratios R corpus)).2)
        (Pass2.init p1.absbadrat) = .error "Illegal division by zero" := by
      rw [h0.resolve_left hr]
      exact foldlM_error (fun _ _ _ => pass2Line_error) corpus _
        ⟨l, hl, fun _ => ⟨_, pass2Line_sd_zero hc⟩⟩
    have hn : ¬ p1.lines = 0 := by
      rw [hl1]
      exact List.ne_nil_of_mem hl ∘ List.length_eq_zero.mp
    simp only [filterLength, h1, hstat, h2, bind, Except.bind, if_neg hn]

/-- In exact arithmetic, the script completes exactly on the corpora whose
every line has the format `f ||| e`, from which the first pass collects a
ratio, and whose ratios are not all equal; on every other corpus it dies. -/
theorem filterLength_completes_iff (corpus : List String) :
    (∃ res : Result R, filterLength corpus = .ok res) ↔
      (∀ l ∈ corpus, (splitBars l.toList).length = 2) ∧ ratios R corpus ≠ [] ∧
        (meanSd (ratios R corpus)).2 ≠ 0 := by
  constructor
  · rintro ⟨res, h⟩
    obtain ⟨p1, h1, -⟩ := bind_ok.mp h
    have hf : ∀ l ∈ corpus, (splitBars l.toList).length = 2 := fun l hl =>
      let ⟨_, _, hl⟩ := foldlM_ok_mem corpus _ p1 h1 l hl
      pass1Line_format hl
    refine ⟨hf, (filterLength_spec h).1, fun h0 => ?_⟩
    rw [filterLength_error hf (.inr h0)] at h
    cases h
  · rintro ⟨hf, hr, hsd⟩
    exact filterLength_ok hf hr hsd

/-- Two corpora that pass the format check and on which the script dies
dividing by zero: a short pair, from which no ratio is collected (line 72),
and a long pair, whose one ratio has a zero deviation (line 115). -/
theorem format_valid_corpora_divide_by_zero :
    (∀ l ∈ ["a ||| b\n"], (splitBars l.toList).length = 2) ∧
      filterLength (R := ℝ) ["a ||| b\n"] = .error "Illegal division by zero" ∧
    (∀ l ∈ ["a b c d e f ||| a b c d e f\n"], (splitBars l.toList).length = 2) ∧
      filterLength (R := ℝ) ["a b c d e f ||| a b c d e f\n"] = .error "Illegal division by zero" := by
  have h1 : lineLengths "a ||| b\n" = (1, 1) := by decide
  have h6 : lineLengths "a b c d e f ||| a b c d e f\n" = (6, 6) := by decide
  have c1 : ¬ Collected ℝ (1, 1) := fun h => absurd h.2.1 (by decide)
  obtain ⟨l6, c6⟩ : (lograt (6, 6) : ℝ) = 0 ∧ Collected ℝ (6, 6) := collected_same le_rfl (by norm_num)
  refine ⟨by decide, filterLength_error (by decide) (.inl ?_), by decide,
    filterLength_error (by decide) (.inr ?_)⟩
  · simp only [ratios, List.filter_cons, h1, c1, decide_False, Bool.false_eq_true, if_false,
      List.filter_nil, List.map_nil]
  · simp only [ratios, List.filter_cons, h6, c6, decide_True, if_true, List.filter_nil,
      List.map_cons, List.map_nil, l6]
    simp [meanSd]

/-! ## The two passes agree -/

/-- The collected lines are the `ZViolation` lines and the `Printed` ones. -/
theorem length_filter_collected (lmean lsd : R) (corpus : List String) :
    (corpus.filter fun l => Collected R (lineLengths l)).length =
      (corpus.filter fun l => ZViolation lmean lsd (lineLengths l)).length +
      (corpus.filter fun l => Printed lmean lsd (lineLengths l)).length := by
  rw [← length_filter_or (fun l => ZViolation lmean lsd (lineLengths l))
    (fun l => Printed lmean lsd (lineLengths l)) (fun _ hz hp => hp.2 hz.2)]
  congr 1
  refine List.filter_congr fun l _ => ?_
  simp only [ZViolation, Printed, decide_eq_decide]
  tauto

/-- On every corpus it completes on, the second pass puts to the z-score
test exactly the lines whose ratio the first pass collected, counting in
`$zviol` those beyond `MAX_ZSCORE` and printing the others; the lines it
skips before the test are the ones the first pass counted in
`$pass1_discard`, so every line is discarded, a violation, or counted in
`$to`; and the mean and the deviation are those of the tested lines' ratios. -/
theorem second_pass_tests_collected_lines {corpus : List String} {res : Result ℝ}
    (h : filterLength corpus = .ok res) :
    let m := meanSd (ratios ℝ corpus)
    res.lines = corpus.length ∧
    res.pass1_discard =
      (corpus.filter fun l => ¬ (Collected ℝ (lineLengths l) ∨ Short (lineLengths l))).length ∧
    res.zviol = (corpus.filter fun l => ZViolation m.1 m.2 (lineLengths l)).length ∧
    res.printed = corpus.filter (fun l => Printed m.1 m.2 (lineLengths l)) ∧
    res.zviol + res.printed.length = (ratios ℝ corpus).length ∧
    res.mean_ratio = CMath.exp m.1 ∧ res.stddev_ratio = CMath.exp m.2 ∧
    res.lines = res.pass1_discard + res.zviol + res.lines_printed := by
  obtain ⟨p1, p2, h1, -, h2, rfl⟩ := filterLength_inv h
  obtain ⟨hl1, -, -, hd1⟩ := pass1_spec corpus Pass1.init p1 h1
  obtain ⟨-, hp2, hc2⟩ := pass2_spec corpus _ p2 h2
  have hz2 := pass2_zviol corpus _ p2 h2
  rw [Pass1.discard_init, zero_add] at hd1
  simp only [Pass1.init, Pass2.init, zero_add, List.nil_append] at hl1 hp2 hc2 hz2
  have hcol := length_filter_collected (meanSd (ratios ℝ corpus)).1 (meanSd (ratios ℝ corpus)).2 corpus
  have hcs := length_filter_or (fun l => Collected ℝ (lineLengths l)) (fun l => Short (lineLengths l))
    (fun _ hc hs => hs.2 hc.2.1) corpus
  have hps := length_filter_or (fun l => Printed (meanSd (ratios ℝ corpus)).1 (meanSd (ratios ℝ corpus)).2 (lineLengths l))
    (fun l => Short (lineLengths l)) (fun _ hp hs => hs.2 hp.1.2.1) corpus
  have hall := corpus.length_eq_length_filter_add
    fun l => decide (Collected ℝ (lineLengths l) ∨ Short (lineLengths l))
  refine ⟨hl1, ?_, hz2, hp2, ?_, rfl, rfl, ?_⟩ <;> dsimp only
  · simp only [decide_not] at hall ⊢
    omega
  · rw [ratios, List.length_map, hcol, hz2, hp2]
  · omega

/-- Two long pairs, of ratios `0` and `log 2`: every line is tested, none
discarded. -/
theorem second_pass_tests_collected_lines_two_pairs :
    ∃ res : Result ℝ, filterLength ["a b c d e f ||| a b c d e f\n",
        "a b c d e f a b c d e f ||| a b c d e f\n"] = .ok res ∧
      res.lines = res.pass1_discard + res.zviol + res.lines_printed := by
  have h1 : lineLengths "a b c d e f ||| a b c d e f\n" = (6, 6) := by decide
  have h2 : lineLengths "a b c d e f a b c d e f ||| a b c d e f\n" = (12, 6) := by decide
  obtain ⟨l1, c1⟩ : (lograt (6, 6) : ℝ) = 0 ∧ Collected ℝ (6, 6) := collected_same le_rfl (by norm_num)
  obtain ⟨l2, c2⟩ : (lograt (12, 6) : ℝ) = Real.log 2 ∧ Collected ℝ (12, 6) :=
    collected_double (k := 6) le_rfl (by norm_num)
  have hr : ratios ℝ ["a b c d e f ||| a b c d e f\n",
      "a b c d e f a b c d e f ||| a b c d e f\n"] = [0, Real.log 2] := by
    simp only [ratios, List.filter_cons, h1, h2, c1, c2, decide_True, if_true, List.filter_nil,
      List.map_cons, List.map_nil, l1, l2]
  have hf : ∀ l ∈ ["a b c d e f ||| a b c d e f\n", "a b c d e f a b c d e f ||| a b c d e f\n"],
      (splitBars l.toList).length = 2 := by decide
  obtain ⟨res, h⟩ := filterLength_ok_zero_log_two hf hr
  exact ⟨res, h, (second_pass_tests_collected_lines h).2.2.2.2.2.2.2⟩

/-! ## The worst z-score -/

/-- The line the report should name: among the weighed lines, the first of
largest z-score. -/
def worstLine (lmean lsd : R) (lines : List String) : Option String :=
  (lines.filter fun l => Weighed R (lineLengths l)).argmax fun l => zscore lmean lsd (lineLengths l)

/-- The `$worstz` update of one line: a weighed line of larger z-score than
the worst so far becomes the worst. -/
theorem pass2Line_worst {lmean lsd : R} {st st' : Pass2 R} {line : String}
    (h : pass2Line lmean lsd st line = .ok st') :
    let n := lineLengths line
    st'.worstz = (if Weighed R n ∧ zscore lmean lsd n > st.worstz then zscore lmean lsd n else st.worstz) ∧
    st'.worst = if Weighed R n ∧ zscore lmean lsd n > st.worstz then line else st.worst := by
  have hw : ¬ Collected R (lineLengths line) → ¬ Weighed R (lineLengths line) := mt And.left
  rcases pass2Line_cases h with ⟨hc, -, h⟩ | ⟨hs, rfl⟩ | ⟨-, rfl⟩ | ⟨-, rfl⟩
  · rcases h with rfl | rfl <;> simp [hw hc]
  · simp [hw fun hc => hc.not_short hs]
  all_goals simp only [apply_ite Pass2.worstz, apply_ite Pass2.worst, and_self]

/-- The worst line after one more line: a weighed line replaces the worst so
far only with a strictly larger z-score. -/
theorem worstLine_concat (lmean lsd : R) (pre : List String) (line : String) :
    worstLine lmean lsd (pre ++ [line]) =
      if Weighed R (lineLengths line) then
        Option.casesOn (worstLine lmean lsd pre) (some line) fun c =>
          if zscore lmean lsd (lineLengths c) < zscore lmean lsd (lineLengths line) then some line
          else some c
      else worstLine lmean lsd pre := by
  unfold worstLine
  by_cases hw : Weighed R (lineLengths line) <;> simp [List.filter_append, hw, List.argmax_concat]

/-- The second pass's `$worstz` and `$worst` report the worst line of
`lines`: its z-score and the line, or `-1` and an empty line when no line is
weighed. -/
def ReportsWorst (lmean lsd : R) (lines : List String) (st : Pass2 R) : Prop :=
  st.worstz = ((worstLine lmean lsd lines).map fun l => zscore lmean lsd (lineLengths l)).getD (-1) ∧
  st.worst = (worstLine lmean lsd lines).getD "\n"

/-- One line of the second pass keeps `ReportsWorst` when the deviation is
not negative, so that every z-score beats the seed `-1`. -/
theorem reportsWorst_step {lmean lsd : R} (hsd : 0 ≤ lsd) {pre : List String} {line : String}
    {st st' : Pass2 R} (hst : ReportsWorst lmean lsd pre st) (h : pass2Line lmean lsd st line = .ok st') :
    ReportsWorst lmean lsd (pre ++ [line]) st' := by
  obtain ⟨hz₁, hw₁⟩ := pass2Line_worst h
  obtain ⟨hz, hw⟩ := hst
  unfold ReportsWorst
  rw [worstLine_concat]
  by_cases hW : Weighed R (lineLengths line)
  · rw [if_pos hW]
    cases hm : worstLine lmean lsd pre with
    | none =>
      have hgt : zscore lmean lsd (lineLengths line) > st.worstz := by
        have hz0 : 0 ≤ zscore lmean lsd (lineLengths line) := div_nonneg (abs_nonneg _) hsd
        rw [hz, hm, Option.map_none', Option.getD_none]
        linarith
      rw [if_pos ⟨hW, hgt⟩] at hz₁ hw₁
      exact ⟨hz₁, hw₁⟩
    | some c =>
      simp only [hm, Option.map_some', Option.getD_some] at hz hw
      dsimp only
      by_cases hlt : zscore lmean lsd (lineLengths c) < zscore lmean lsd (lineLengths line)
      · rw [if_pos ⟨hW, by rw [hz]; exact hlt⟩] at hz₁ hw₁
        rw [if_pos hlt]
        exact ⟨hz₁, hw₁⟩
      · rw [if_neg fun h' => hlt (hz ▸ h'.2)] at hz₁ hw₁
        rw [if_neg hlt]
        exact ⟨hz₁.trans hz, hw₁.trans hw⟩
  · rw [if_neg hW, if_neg fun h' => hW h'.1] at *
    exact ⟨hz₁.trans hz, hw₁.trans hw⟩

/-- From a state that reports the worst line of `pre`, the second pass over
`corpus` reports the worst line of `pre ++ corpus`. -/
theorem pass2_worst {lmean lsd : R} (hsd : 0 ≤ lsd) :
    ∀ (corpus pre : List String) (st st' : Pass2 R), ReportsWorst lmean lsd pre st →
      corpus.foldlM (pass2Line lmean lsd) st = .ok st' → ReportsWorst lmean lsd (pre ++ corpus) st'
  | [], pre, st, st', hst, h => by cases h; rwa [List.append_nil]
  | line :: corpus, pre, st, st', hst, h => by
    obtain ⟨st₁, h₁, h⟩ := foldlM_cons_ok.mp h
    rw [← List.singleton_append, ← List.append_assoc]
    exact pass2_worst hsd corpus _ st₁ st' (reportsWorst_step hsd hst h₁) h

/-- Whenever the script completes, it reports as `Worst z-score` the largest
z-score among the collected pairs with both sides longer than
`AUTOMATIC_INCLUDE_IF_SHORTER_THAN`, and as `sentence` the first line with
that z-score; `-1` and an empty line when there is no such pair. -/
theorem worst_zscore_reported {corpus : List String} {res : Result ℝ}
    (h : filterLength corpus = .ok res) :
    let m := meanSd (ratios ℝ corpus)
    res.worstz = ((worstLine m.1 m.2 corpus).map fun l => zscore m.1 m.2 (lineLengths l)).getD (-1) ∧
    res.worst = (worstLine m.1 m.2 corpus).getD "\n" := by
  obtain ⟨p1, p2, -, -, h2, rfl⟩ := filterLength_inv h
  exact pass2_worst (Real.sqrt_nonneg _) corpus [] _ p2 ⟨rfl, rfl⟩ h2

/-- Two pairs of seven words on the right, of ratios `0` and `log 2`: both
have z-score `1`, and the report names the first. -/
theorem worst_zscore_reported_two_pairs :
    ∃ res : Result ℝ, filterLength ["a b c d e f g ||| a b c d e f g\n",
        "a b c d e f g a b c d e f g ||| a b c d e f g\n"] = .ok res ∧
      res.worstz = 1 ∧ res.worst = "a b c d e f g ||| a b c d e f g\n" := by
  have h1 : lineLengths "a b c d e f g ||| a b c d e f g\n" = (7, 7) := by decide
  have h2 : lineLengths "a b c d e f g a b c d e f g ||| a b c d e f g\n" = (14, 7) := by decide
  obtain ⟨l1, c1⟩ : (lograt (7, 7) : ℝ) = 0 ∧ Collected ℝ (7, 7) :=
    collected_same (by norm_num) (by norm_num)
  obtain ⟨l2, c2⟩ : (lograt (14, 7) : ℝ) = Real.log 2 ∧ Collected ℝ (14, 7) :=
    collected_double (k := 7) (by norm_num) (by norm_num)
  have ha : 0 < Real.log 2 := Real.log_pos one_lt_two
  have hr : ratios ℝ ["a b c d e f g ||| a b c d e f g\n",
      "a b c d e f g a b c d e f g ||| a b c d e f g\n"] = [0, Real.log 2] := by
    simp only [ratios, List.filter_cons, h1, h2, c1, c2, decide_True, if_true, List.filter_nil,
      List.map_cons, List.map_nil, l1, l2]
  have hf : ∀ l ∈ ["a b c d e f g ||| a b c d e f g\n", "a b c d e f g a b c d e f g ||| a b c d e f g\n"],
      (splitBars l.toList).length = 2 := by decide
  obtain ⟨res, h⟩ := filterLength_ok_zero_log_two hf hr
  obtain ⟨hz, hw⟩ := worst_zscore_reported h
  rw [hr, meanSd_zero_pos _ ha] at hz hw
  have hz1 : zscore (Real.log 2 / 2) (Real.log 2 / 2) (7, 7) = 1 ∧
      zscore (Real.log 2 / 2) (Real.log 2 / 2) (14, 7) = 1 :=
    ⟨zscore_half_log_two (.inl l1), zscore_half_log_two (.inr l2)⟩
  have hwl : worstLine (Real.log 2 / 2) (Real.log 2 / 2) ["a b c d e f g ||| a b c d e f g\n",
      "a b c d e f g a b c d e f g ||| a b c d e f g\n"] = some "a b c d e f g ||| a b c d e f g\n" := by
    have w1 : Weighed ℝ (7, 7) := ⟨c1, by decide, by decide⟩
    have w2 : Weighed ℝ (14, 7) := ⟨c2, by decide, by decide⟩
    simp [worstLine, List.filter_cons, h1, h2, w1, w2, List.argmax, List.argAux, hz1]
  exact ⟨res, h, by rw [hz, hwl]; simp [h1, hz1.1], by rw [hw, hwl]; rfl⟩

end Cdec.FilterLength
