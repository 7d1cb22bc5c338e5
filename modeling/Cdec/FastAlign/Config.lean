import Cdec.FastAlign.TTable

/-!
# `Cdec.FastAlign.Config` — what `fast_align`'s `main` reads before it trains

The options `InitCommandLine` declares, the constants `main` derives from
them (lines 61-77), the one check it makes on them (lines 78-81), and the
collaborators it calls that this model leaves outside: the corpus reader
`CorpusTools::ReadLine`, the vocabulary `TD`, the special functions of `Md`,
and the file reader.  Argument parsing itself (boost's `program_options`,
the `--config` file) is outside too: an `Options` value is its result.

Standard output is a list of writes.  Text is kept as text; an alignment
link `cout << a << '-' << b` is kept as the pair, so that its two numbers can
be compared without parsing; a `double` is kept as the number, its decimal
rendering being the iostream's business.
-/

namespace Cdec

/-- The parsed options of `InitCommandLine` (lines 19-38): a flag by whether
it was given, a value by its value, the declared default when absent. -/
structure Options (R : Type) where
  input : Option String
  help : Bool
  reverse : Bool
  iterations : UInt32
  favor_diagonal : Bool
  prob_align_null : R
  diagonal_tension : R
  variational_bayes : Bool
  alpha : R
  no_null_word : Bool
  output_parameters : Bool
  beam_threshold : R
  hide_training_alignments : Bool
  testset : Option String
  no_add_viterbi : Bool

variable {R : Type} [LinearOrderedField R]

/-- The options when none is given on the command line: the declared defaults. -/
def Options.defaults : Options R where
  input := none
  help := false
  reverse := false
  iterations := 5
  favor_diagonal := false
  prob_align_null := 0.08
  diagonal_tension := 4
  variational_bayes := false
  alpha := 0.01
  no_null_word := false
  output_parameters := false
  beam_threshold := -4
  hide_training_alignments := false
  testset := none
  no_add_viterbi := false

/-- The constants of `main`, lines 61-77. -/
structure Config (R : Type) where
  reverse : Bool
  ITERATIONS : Int
  BEAM_THRESHOLD : R
  use_null : Bool
  add_viterbi : Bool
  variational_bayes : Bool
  write_alignments : Bool
  diagonal_tension : R
  prob_align_null : R
  hide_training_alignments : Bool
  testset : String
  alpha : R
  favor_diagonal : Bool

/-- `const double prob_align_not_null = 1.0 - prob_align_null;` (line 75). -/
def Config.prob_align_not_null (cfg : Config R) : R := 1 - cfg.prob_align_null

/-- `const int ITERATIONS = conf["iterations"].as<unsigned>();`: the 32-bit
unsigned value read as a signed one. -/
def Options.ITERATIONS (o : Options R) : Int :=
  if o.iterations.toNat < 2 ^ 31 then o.iterations.toNat else o.iterations.toNat - 2 ^ 32

/-- Lines 61-77. -/
def Options.config [CMath R] (o : Options R) : Config R where
  reverse := o.reverse
  ITERATIONS := o.ITERATIONS
  BEAM_THRESHOLD := CMath.pow 10 o.beam_threshold
  use_null := !o.no_null_word
  add_viterbi := !o.no_add_viterbi
  variational_bayes := o.variational_bayes
  write_alignments := !o.output_parameters
  diagonal_tension := o.diagonal_tension
  prob_align_null := o.prob_align_null
  hide_training_alignments := o.hide_training_alignments
  testset := o.testset.getD ""
  alpha := o.alpha
  favor_diagonal := o.favor_diagonal

/-- The number of passes the loop `for (int iter = 0; iter < ITERATIONS; ++iter)` makes. -/
def Config.passes (cfg : Config R) : Nat := cfg.ITERATIONS.toNat

/-- `final_iteration = (iter == (ITERATIONS - 1))` (line 89). -/
def Config.final (cfg : Config R) (iter : Nat) : Bool := (iter : Int) == cfg.ITERATIONS - 1

/-- Lines 50-54 and 78-81: the usage check of `InitCommandLine` and the only
check `main` makes on a value. -/
def Options.validate (o : Options R) : Except String Unit :=
  if o.help || o.input.isNone then .error "Usage"
  else if o.variational_bayes && o.alpha ≤ 0 then .error "--alpha must be > 0\n"
  else .ok ()

/-- One write to `cout`. -/
inductive Out (R : Type) where
  | str : String → Out R
  | link : Nat → Nat → Out R
  | num : R → Out R
  /-- the test scorer's `TD::GetString(src) << " ||| " << TD::GetString(trg)
  << " |||"` (line 212) -/
  | pair : String → String → Out R

/-- A write as the run in the other direction makes it: an alignment link
with its two numbers exchanged, a sentence pair with its sides exchanged;
text and numbers unchanged. -/
def Out.swap : Out R → Out R
  | .link a b => .link b a
  | .pair s t => .pair t s
  | o => o

/-- The links among a list of writes, in order. -/
def Out.links : List (Out R) → List (Nat × Nat)
  | [] => []
  | .link a b :: os => (a, b) :: Out.links os
  | _ :: os => Out.links os

section Links

omit [LinearOrderedField R]

variable (s : String) (a b : Nat) (x : R) (os : List (Out R))

@[simp] theorem Out.links_nil : Out.links ([] : List (Out R)) = [] := rfl
@[simp] theorem Out.links_str : Out.links (.str s :: os) = Out.links os := rfl
@[simp] theorem Out.links_link : Out.links (.link a b :: os) = (a, b) :: Out.links os := rfl
@[simp] theorem Out.links_num : Out.links (.num x :: os) = Out.links os := rfl
@[simp] theorem Out.links_pair (t : String) : Out.links (.pair s t :: os) = Out.links os := rfl

@[simp] theorem Out.links_append (os' : List (Out R)) :
    Out.links (os ++ os') = Out.links os ++ Out.links os' := by
  induction os with
  | nil => rfl
  | cons o os ih => cases o <;> simp [ih]

end Links

/-- The collaborators `main` calls that are outside this model. -/
structure Externals (R : Type) where
  /-- `CorpusTools::ReadLine`: the word ids of the two sides of a line. -/
  ReadLine : String → List WordID × List WordID
  /-- `TD::Convert("<eps>")`, the NULL word. -/
  kNULL : WordID
  /-- `TD::Convert` from an id to its surface form. -/
  Convert : WordID → String
  /-- `TD::GetString` of a sentence. -/
  GetString : List WordID → String
  /-- `Md::log_poisson`. -/
  log_poisson : R → R → R
  /-- `Md::digamma`. -/
  digamma : R → R
  /-- `ReadFile` and `getline`: the lines of a file. -/
  ReadFile : String → List String

/-- Collaborators that read every line as the pair `p`, print an id as its
number, and answer `0` for the special functions: the inputs of the witnesses. -/
def Externals.reading (p : List WordID × List WordID) : Externals R where
  ReadLine := fun _ => p
  kNULL := 0
  Convert := toString
  GetString := toString
  log_poisson := fun _ _ => 0
  digamma := fun _ => 0
  ReadFile := fun _ => []

/-- `if (reverse) swap(src, trg);` (lines 108, 213). -/
def orient (reverse : Bool) (p : List WordID × List WordID) : List WordID × List WordID :=
  if reverse then p.swap else p

/-- The declared default of `alpha` passes the check, whatever else is set. -/
theorem validate_of_default_alpha (o : Options R) (hi : o.input.isSome) (hh : o.help = false)
    (ha : o.alpha = Options.defaults.alpha) : o.validate = .ok () := by
  have : ¬ (o.alpha ≤ 0) := by rw [ha]; norm_num [Options.defaults]
  simp [Options.validate, Option.isNone_iff_eq_none, Option.isSome_iff_ne_none.mp hi, hh, this]

end Cdec
