import Cdec.Decoder.Search

/-!
# `Cdec.Decoder.Pass` — `PassToIncremental` and `IncrementalBase::Load`

cdec hands the hypergraph of each sentence to `PassToIncremental`.  The first
call loads the language model: `IncrementalBase::Load` picks the
`Incremental<Model>` of the file's model type and constructs it.  The
constructor of `IncrementalBase` binds the reference `cdec_weights_` to the
weight vector the call passed and reads three of its weights into
`weights_`; then KenLM loads the model and fills the vocabulary map.  The
decoder is kept in the global `AwfulGlobalIncremental`, and every call runs
Search with it.

`cdec_weights_` is a `const std::vector<weight_t> &` (line 69): a later call
does not copy its own weights into the decoder, and ConvertEdge (line 166)
reads the vector of the first call as it is during the later one.  The model
gives each call the caller's weight vectors by address (`Call.memory`) and
passes the vector by its address; the decoder keeps the address.

KenLM is a parameter (`Loader`): `RecognizeBinary`, and the load of the file
by `Incremental<Model>`'s member `m_`, which throws when the model does not
load.  The global is explicit state: a call takes it and returns it with what
Search printed or why the call stopped.

## What is proved

* `load_ok`: `Load` constructs only the two probing models, a file KenLM
  does not recognize as binary as a probing one, and its decoder refers to
  the weight vector it was given.
* `passToIncremental_loaded`, `passToIncremental_load_ok`,
  `passToIncremental_load_error`: one call, from a loaded global and from an
  empty one.
* `run_loaded`: once a decoder is loaded it stays, and every call searches
  its own hypergraph with it, whatever model file and weight vector it
  passes.
* `run_first_load`: from the start of the program, the calls before the first
  whose `Load` succeeds each stop where `Load` stops and load nothing; that
  call loads its decoder, and it and every later call search with it,
  reading cdec's weights from the first call's vector as it is at their own
  time.

Left out: the `Pop limit` and `Weights` lines on `cerr`, and the lifetime of
the vector `cdec_weights_` refers to: the model takes it to live as long as
the decoder.  A call after its end would read through a dangling reference.
-/

namespace Cdec.Decoder

variable {R V P : Type}

/-- `lm::ngram::ModelType` as `Load` tells its values apart. -/
inductive ModelType where
  | PROBING
  | REST_PROBING
  /-- every other type of binary model -/
  | other
deriving DecidableEq, Repr

/-- What the search library and KenLM build for a model file: the vocabulary
map KenLM's enumeration fills, and the search library over the model. -/
structure LoadedModel (R V P : Type) where
  vocab_ : LoadedVocab
  L : Lib R V P

/-- An `IncrementalBase` as `Load` returns it: the model, and
`cdec_weights_`, the address of the weight vector it was constructed with. -/
structure IncrementalBase (R V P : Type) where
  model : LoadedModel R V P
  cdec_weights_ : Nat

/-- What `Load` calls of KenLM and of cdec's feature dictionary. -/
structure Loader (R V P : Type) where
  /-- `lm::ngram::RecognizeBinary`: the model type of a binary file, `none`
  for a file it does not recognize as binary -/
  RecognizeBinary : String → Option ModelType
  /-- `FD::Convert`: the id of a feature -/
  FD : String → Nat
  /-- the member `m_(model_file, GetConfig())` of `Incremental<Model>` (line 76)
  with the type's `Model` and the weights `weights_` holds (language model,
  OOV, word penalty): KenLM loads the file, enumerating its vocabulary into
  `vocab_`, or throws -/
  New : ModelType → String → R × R × R → Except String (LoadedModel R V P)

/-- Why a call stops short: an exception (`UTIL_THROW`, or KenLM's while the
model loads), or a fault. -/
inductive Abort where
  | exception (what : String)
  | fault (f : Fault)
deriving DecidableEq, Repr

/-- `new Incremental<Model>(model_file, weights)` (lines 48-52, 76): the
`IncrementalBase` constructor binds `cdec_weights_` to the vector at
`weights` and reads the three weights of `weights_` from it
(`weights[FD::Convert(...)]`, undefined past its end); then `m_` loads the
file. -/
def construct (K : Loader R V P) (type : ModelType) (model_file : String) (weights : Nat)
    (memory : Nat → List R) : Except Abort (IncrementalBase R V P) :=
  (subscript .weights (memory weights) (K.FD "KLanguageModel")).mapError .fault >>= fun lm =>
  (subscript .weights (memory weights) (K.FD "KLanguageModel_OOV")).mapError .fault >>= fun oov =>
  (subscript .weights (memory weights) (K.FD "WordPenalty")).mapError .fault >>= fun wp =>
  (K.New type model_file (lm, oov, wp)).mapError .exception >>= fun m =>
  .ok ⟨m, weights⟩

/-- `IncrementalBase::Load` (lines 86-97) on the weight vector at `weights`
among the caller's: a file KenLM does not recognize as binary is loaded as a
probing model. -/
def Load (K : Loader R V P) (model_file : String) (weights : Nat) (memory : Nat → List R) :
    Except Abort (IncrementalBase R V P) :=
  match (K.RecognizeBinary model_file).getD .PROBING with
  | .PROBING => construct K .PROBING model_file weights memory
  | .REST_PROBING => construct K .REST_PROBING model_file weights memory
  | .other => .error (.exception "Sorry this lm type isn't supported yet.")

/-- A decoder the constructor builds refers to the vector it was given. -/
theorem construct_ok {K : Loader R V P} {type : ModelType} {model_file : String} {weights : Nat}
    {memory : Nat → List R} {d : IncrementalBase R V P}
    (h : construct K type model_file weights memory = .ok d) : d.cdec_weights_ = weights := by
  unfold construct at h
  obtain ⟨_, -, h⟩ := bind_ok.mp h
  obtain ⟨_, -, h⟩ := bind_ok.mp h
  obtain ⟨_, -, h⟩ := bind_ok.mp h
  obtain ⟨_, -, h⟩ := bind_ok.mp h
  cases h
  rfl

/-- `Load` constructs only the two probing models: a decoder it returns is
built for the file's type, probing when the file is not binary, and refers
to the weight vector `Load` was given. -/
theorem load_ok {K : Loader R V P} {model_file : String} {weights : Nat} {memory : Nat → List R}
    {d : IncrementalBase R V P} (h : Load K model_file weights memory = .ok d) :
    (K.RecognizeBinary model_file).getD .PROBING ≠ .other ∧
      construct K ((K.RecognizeBinary model_file).getD .PROBING) model_file weights memory = .ok d ∧
      d.cdec_weights_ = weights := by
  unfold Load at h
  split at h
  · next ht => exact ⟨by rw [ht]; decide, by rw [ht]; exact h, construct_ok h⟩
  · next ht => exact ⟨by rw [ht]; decide, by rw [ht]; exact h, construct_ok h⟩
  · cases h

variable [LinearOrderedField R] [CMath R]

/-- Search with the decoder `d` during a call whose weight vectors are
`memory`: ConvertEdge reads `cdec_weights_` through the reference. -/
def IncrementalBase.Search (d : IncrementalBase R V P) (memory : Nat → List R) (pop_limit : Nat)
    (hg : Hypergraph R) (fuel : Nat) : Except Fault (Output R) :=
  Cdec.Decoder.Search ⟨d.model.vocab_, memory d.cdec_weights_⟩ d.model.L pop_limit hg fuel

/-- `PassToIncremental` (lines 178-184) on the global `AwfulGlobalIncremental`:
the global after the call, and Search's output or why the call stopped. -/
def PassToIncremental (K : Loader R V P) (AwfulGlobalIncremental : Option (IncrementalBase R V P))
    (model_file : String) (weights : Nat) (memory : Nat → List R) (pop_limit : Nat)
    (hg : Hypergraph R) (fuel : Nat) : Option (IncrementalBase R V P) × Except Abort (Output R) :=
  let loaded : Except Abort (IncrementalBase R V P) := match AwfulGlobalIncremental with
    | some d => .ok d
    | none => Load K model_file weights memory
  match loaded with
  | .error e => (AwfulGlobalIncremental, .error e)
  | .ok d => (some d, (d.Search memory pop_limit hg fuel).mapError .fault)

/-- The arguments of one call of `PassToIncremental`, with the fuel the model
gives Search: the weight vector is passed by reference, as its address among
`memory`, the caller's weight vectors as they are during the call. -/
structure Call (R : Type) where
  model_file : String
  weights : Nat
  memory : Nat → List R
  pop_limit : Nat
  hg : Hypergraph R
  fuel : Nat

/-- A run of calls from a global: the global after the last call, and what
each call returned. -/
def run (K : Loader R V P) : Option (IncrementalBase R V P) → List (Call R) →
    Option (IncrementalBase R V P) × List (Except Abort (Output R))
  | g, [] => (g, [])
  | g, c :: cs =>
    let r := PassToIncremental K g c.model_file c.weights c.memory c.pop_limit c.hg c.fuel
    let rs := run K r.1 cs
    (rs.1, r.2 :: rs.2)

theorem run_cons (K : Loader R V P) (g : Option (IncrementalBase R V P)) (c : Call R) (cs : List (Call R)) :
    run K g (c :: cs) =
      let r := PassToIncremental K g c.model_file c.weights c.memory c.pop_limit c.hg c.fuel
      ((run K r.1 cs).1, r.2 :: (run K r.1 cs).2) :=
  rfl

/-- What a call returns when it searches with the decoder `d`. -/
def searchWith (d : IncrementalBase R V P) (c : Call R) : Except Abort (Output R) :=
  (d.Search c.memory c.pop_limit c.hg c.fuel).mapError .fault

section Calls

variable {K : Loader R V P} {model_file : String} {weights : Nat} {memory : Nat → List R}
  {pop_limit : Nat} {hg : Hypergraph R} {fuel : Nat}

/-- A loaded global stays as it is, whatever model file and weight vector the
call passes. -/
theorem passToIncremental_loaded (d : IncrementalBase R V P) :
    PassToIncremental K (some d) model_file weights memory pop_limit hg fuel =
      (some d, searchWith d ⟨model_file, weights, memory, pop_limit, hg, fuel⟩) :=
  rfl

theorem passToIncremental_load_ok {d : IncrementalBase R V P}
    (h : Load K model_file weights memory = .ok d) :
    PassToIncremental K none model_file weights memory pop_limit hg fuel =
      (some d, searchWith d ⟨model_file, weights, memory, pop_limit, hg, fuel⟩) := by
  simp only [PassToIncremental, h]
  rfl

/-- A call whose `Load` stops loads nothing. -/
theorem passToIncremental_load_error {e : Abort} (h : Load K model_file weights memory = .error e) :
    PassToIncremental K none model_file weights memory pop_limit hg fuel = (none, .error e) := by
  simp only [PassToIncremental, h]

end Calls

/-- Once a decoder is loaded it stays, and every call searches its own
hypergraph with it, whatever model file and weight vector it passes. -/
theorem run_loaded (K : Loader R V P) (d : IncrementalBase R V P) :
    ∀ calls : List (Call R), run K (some d) calls = (some d, calls.map (searchWith d))
  | [] => rfl
  | c :: cs => by simp only [run_cons, passToIncremental_loaded, run_loaded K d cs]; rfl

/-- From the start of the program: the calls before the first whose `Load`
succeeds each stop where their `Load` stops and load nothing; that call
loads its decoder, which refers to its weight vector, and it and every later
call search with that decoder, reading cdec's weights from the first call's
vector as it is during their own call, whatever model file and weight
vector they pass. -/
theorem run_first_load (K : Loader R V P) (c : Call R) (post : List (Call R))
    (d : IncrementalBase R V P) (hc : Load K c.model_file c.weights c.memory = .ok d) :
    ∀ pre : List (Call R), (∀ c' ∈ pre, ∃ e, Load K c'.model_file c'.weights c'.memory = .error e) →
      (run K none (pre ++ c :: post)).1 = some d ∧ d.cdec_weights_ = c.weights ∧
      List.Forall₂ (fun c' out => ∃ e, Load K c'.model_file c'.weights c'.memory = .error e ∧
          out = .error e)
        pre ((run K none (pre ++ c :: post)).2.take pre.length) ∧
      (run K none (pre ++ c :: post)).2.drop pre.length = (c :: post).map fun c' =>
        (Search ⟨d.model.vocab_, c'.memory c.weights⟩ d.model.L c'.pop_limit c'.hg c'.fuel).mapError
          .fault
  | [], _ => by
    obtain ⟨-, -, hw⟩ := load_ok hc
    simp only [List.nil_append, run_cons, passToIncremental_load_ok hc, run_loaded]
    exact ⟨trivial, hw, .nil, by rw [← hw]; rfl⟩
  | c' :: pre, hpre => by
    obtain ⟨e, he⟩ := hpre c' (.head _)
    obtain ⟨h1, hw, h2, h3⟩ := run_first_load K c post d hc pre fun c'' h => hpre c'' (.tail _ h)
    simp only [List.cons_append, run_cons, passToIncremental_load_error he, List.length_cons,
      List.take_succ_cons, List.drop_succ_cons]
    exact ⟨h1, hw, .cons ⟨e, he, rfl⟩ h2, h3⟩

/-- A trie file, an ARPA file, then another file and another weight vector,
after the first call's vector has changed: the first call throws and loads
nothing, the second loads the ARPA file as a probing model, and it and the
third search with it, the third reading the first call's vector. -/
theorem run_first_load_trie_then_arpa :
    let m : LoadedModel ℝ Unit Unit := ⟨⟨⟨[0, 5, 6]⟩, by decide⟩, ⟨(), fun _ => (),
      fun _ => false, fun _ => 0, fun _ _ => (), fun _ => none, fun _ _ => 0, 0, 0, fun _ _ => 0⟩⟩
    let K : Loader ℝ Unit Unit :=
      ⟨fun f => if f = "lm.trie" then some .other else none, fun _ => 0, fun _ _ _ => .ok m⟩
    let pre : List (Call ℝ) := [⟨"lm.trie", 0, fun _ => [1], 100, ⟨[], []⟩, 5⟩]
    let c : Call ℝ := ⟨"lm.arpa", 0, fun _ => [1], 100, ⟨[], []⟩, 5⟩
    let post : List (Call ℝ) := [⟨"other.arpa", 1, fun a => if a = 0 then [2] else [3], 100, ⟨[], []⟩, 5⟩]
    (run K none (pre ++ c :: post)).1 = some ⟨m, 0⟩ ∧ (⟨m, 0⟩ : IncrementalBase ℝ Unit Unit).cdec_weights_ = 0 ∧
      List.Forall₂ (fun c' out => ∃ e, Load K c'.model_file c'.weights c'.memory = .error e ∧
          out = .error e)
        pre ((run K none (pre ++ c :: post)).2.take pre.length) ∧
      (run K none (pre ++ c :: post)).2.drop pre.length = (c :: post).map fun c' =>
        (Search ⟨m.vocab_, c'.memory 0⟩ m.L c'.pop_limit c'.hg c'.fuel).mapError .fault := by
  intro m K pre c post
  exact run_first_load K c post ⟨m, 0⟩ rfl pre fun c' h => by
    rw [List.mem_singleton.mp h]
    exact ⟨_, rfl⟩

end Cdec.Decoder
