import Cdec.Decoder.MapVocab

/-!
# `Cdec.Decoder.ConvertEdge` — `Incremental::ConvertEdge` of `decoder/incremental.cc`

The incremental decoder hands each edge of cdec's hypergraph to KenLM's
search library as a `search::PartialEdge`.  ConvertEdge walks the target side
`e` of the edge's rule: a word `w > 0` is a terminal, mapped to KenLM's index
by `FromCDec`; a word `w ≤ 0` is a nonterminal slot, filled from the vertex of
the tail `tail_nodes_[-w]` already searched, and stands as the placeholder
`kMaxWordIndex` in the words `ScoreRule` scores.  An empty vertex drops the
edge (`return` at line 145).

The search library and KenLM are parameters (`Lib`): every theorem holds for
every implementation of them.  A subscript past the end of an array, which
C++ leaves undefined, is the fault `subscript`; `-w` past `INT_MAX` is
`overflow`.

## What is proved

* `convertLoop_spec`, `convertEdge_spec`: with every slot's tail inside
  `tail_nodes_` and inside the vertices, ConvertEdge faults only at line 160,
  on a rule without nonterminals; otherwise it drops the edge when a slot's
  vertex is empty, and adds it with the slots' partial vertices in order and
  the score of lines 166-169.
* `convertLoop_some`: when the loop runs to the end, its words are `e` word by
  word (`wordOf`) and it has one nonterminal per word `≤ 0` of `e`.
* `convertEdge_congr`: ConvertEdge reads the vertices only at the edge's
  tails.

Left out: `out.Between()` (KenLM's state the rule's score leaves), and the
`memcpy` of line 160, modelled as copying `nts`; on a rule without
nonterminals it copies zero bytes from `&nts[0]` of an empty vector.
-/

namespace Cdec.Decoder

/-- `lm::kMaxWordIndex`, the largest `WordIndex`: the placeholder of a
nonterminal slot among the words `ScoreRule` scores. -/
def kMaxWordIndex : WordIndex := 4294967295

/-- A `Hypergraph::Edge`, with the fields incremental.cc reads. -/
structure Edge (R : Type) where
  /-- `rule_->e()`: a word `w > 0` is a terminal, `w ≤ 0` the slot of the
  tail `tail_nodes_[-w]`. -/
  e : List WordID
  /-- `rule_->GetFeatureValues()`: (feature id, value) pairs. -/
  features : List (Nat × R)
  tail_nodes_ : List Nat

/-- A `Hypergraph::Node`: the indices of the edges into it. -/
structure Node where
  in_edges_ : List Nat

/-- A `Hypergraph`, with the fields incremental.cc reads. -/
structure Hypergraph (R : Type) where
  nodes_ : List Node
  edges_ : List (Edge R)

/-- A `search::Final`: a derivation, with the edge its note points to, one
child per nonterminal slot, and its score. -/
inductive Final (R : Type) where
  | mk (note : Edge R) (children : List (Final R)) (score : R)

/-- `Final::GetNote().vp`, cast back to the edge. -/
def Final.note {R : Type} : Final R → Edge R
  | .mk note _ _ => note

/-- `Final::Children()`. -/
def Final.children {R : Type} : Final R → List (Final R)
  | .mk _ children _ => children

/-- `Final::GetScore()`. -/
def Final.score {R : Type} : Final R → R
  | .mk _ _ score => score

/-- A `search::PartialEdge` as ConvertEdge fills it: the root partial
vertices of its slots (`NT()`), its note, the edge, and its score. -/
structure PartialEdge (R P : Type) where
  nts : List P
  note : Edge R
  score : R

/-- What incremental.cc calls of the search library and of KenLM, with `V`
for `search::Vertex` and `P` for `search::PartialVertex`. -/
structure Lib (R V P : Type) where
  /-- a default-constructed `search::Vertex` (`new search::Vertex[...]`) -/
  Vertex : V
  RootPartial : V → P
  Empty : P → Bool
  Bound : P → R
  /-- `gen.Search(context, vertex_gen)` under `search::Config(weights_, pop_limit)`:
  the vertex the search builds from the edges the generator holds -/
  Search : Nat → List (PartialEdge R P) → V
  /-- `Vertex::BestChild()`; `none` when the `Final` is not `Valid()` -/
  BestChild : V → Option (Final R)
  /-- `search::ScoreRule(context, words, final, out.Between())` -/
  ScoreRule : List WordIndex → Bool → R
  /-- `m_.GetVocabulary().EndSentence()` -/
  EndSentence : WordIndex
  /-- `context.GetWeights().WordPenalty()` -/
  WordPenalty : R
  /-- `SparseVector::dot` with cdec's weight vector -/
  dot : List (Nat × R) → List R → R

/-- An `Incremental<Model>` during one call: the members ConvertEdge reads
besides the model. -/
structure Incremental (R : Type) where
  vocab_ : LoadedVocab
  /-- the weight vector `cdec_weights_` refers to, as it is during the call
  (`Cdec.Decoder.IncrementalBase` keeps the reference) -/
  cdec_weights_ : List R

/-- The arrays incremental.cc subscripts. -/
inductive Store where
  | nodes_ | edges_ | out_vertices | tail_nodes_ | children
  /-- ConvertEdge's vector of nonterminals, whose `nts[0]` line 160 takes -/
  | nts
  /-- the weight vector the decoder is constructed with, three of whose
  weights line 50 reads -/
  | weights
deriving DecidableEq, Repr

/-- Why a run of the model stops short. -/
inductive Fault where
  /-- a subscript past the end of an array: undefined behaviour -/
  | subscript (a : Store) (i : Nat)
  /-- an `int` negation past `INT_MAX`: undefined behaviour -/
  | overflow
  /-- a loop ran longer than the fuel the model gives it -/
  | outOfFuel
deriving DecidableEq, Repr

/-- `xs[i]`, a fault past the end. -/
def subscript {α : Type} (a : Store) (xs : List α) (i : Nat) : Except Fault α :=
  match xs[i]? with
  | some x => .ok x
  | none => .error (.subscript a i)

theorem subscript_of_lt {α : Type} {a : Store} {xs : List α} {i : Nat} (h : i < xs.length) :
    subscript a xs i = .ok xs[i] := by
  rw [subscript, List.getElem?_eq_getElem h]

theorem subscript_of_some {α : Type} {a : Store} {xs : List α} {i : Nat} {x : α}
    (h : xs[i]? = some x) : subscript a xs i = .ok x := by
  rw [subscript, h]

/-- The locals of ConvertEdge's loop (lines 137-141). -/
structure Locals (R P : Type) where
  words : List WordIndex
  nts : List P
  terminals : UInt32
  score : R

variable {R V P : Type} [LinearOrderedField R]

/-- The loop of lines 142-152 over the words of `e` still to come; `none` is
the `return` of line 145, at a slot whose vertex is empty. -/
def convertLoop (self : Incremental R) (L : Lib R V P) (vertices : List V) (in_ : Edge R) :
    List WordID → Locals R P → Except Fault (Option (Locals R P))
  | [], loc => .ok (some loc)
  | word :: rest, loc =>
    if word ≤ 0 then
      if -word > INT_MAX then .error .overflow else
      subscript .tail_nodes_ in_.tail_nodes_ (-word).toNat >>= fun t =>
      subscript .out_vertices vertices t >>= fun v =>
      let p := L.RootPartial v
      if L.Empty p then .ok none else
      convertLoop self L vertices in_ rest
        { loc with nts := loc.nts ++ [p], score := loc.score + L.Bound p,
                   words := loc.words ++ [kMaxWordIndex] }
    else
      convertLoop self L vertices in_ rest
        { loc with terminals := loc.terminals + 1,
                   words := loc.words ++ [self.vocab_.FromCDec word] }

/-- `Incremental::ConvertEdge` (lines 135-172): the edge joins the
generator's, unless a slot's vertex is empty; `memcpy` reads from `&nts[0]`
(line 160). -/
def ConvertEdge [CMath R] (self : Incremental R) (L : Lib R V P) (final : Bool) (vertices : List V)
    (in_ : Edge R) (gen : List (PartialEdge R P)) : Except Fault (List (PartialEdge R P)) :=
  convertLoop self L vertices in_ in_.e ⟨[], [], 0, 0⟩ >>= fun
  | none => .ok gen
  | some loc =>
    let words := if final then loc.words ++ [L.EndSentence] else loc.words
    subscript .nts loc.nts 0 >>= fun _ =>
    let score := loc.score + L.dot in_.features self.cdec_weights_
      - (loc.terminals.toNat : R) * L.WordPenalty / CMath.log 10 + L.ScoreRule words final
    .ok (gen ++ [⟨loc.nts, in_, score⟩])

/-- A rule without nonterminals: every word of its `e` is a terminal. -/
def TerminalsOnly (ed : Edge R) : Prop := ∀ w ∈ ed.e, 0 < w

instance : DecidablePred (TerminalsOnly (R := R)) := fun ed =>
  inferInstanceAs (Decidable (∀ w ∈ ed.e, 0 < w))

/-- The word ConvertEdge pushes for a word of `e`. -/
def wordOf (self : Incremental R) (w : WordID) : WordIndex :=
  if w ≤ 0 then kMaxWordIndex else self.vocab_.FromCDec w

/-- The partial vertex ConvertEdge reads for the slot `w` of `in_`:
`RootPartial` of the vertex of the slot's tail. -/
def slotPartial (L : Lib R V P) (vertices : List V) (in_ : Edge R) (w : WordID) : Option P :=
  (in_.tail_nodes_[(-w).toNat]? >>= fun t => vertices[t]?).map L.RootPartial

/-- `++terminals` on the `unsigned int` counter. -/
theorem toNat_add_one (t : UInt32) : (t + 1).toNat = (t.toNat + 1) % 2 ^ 32 := by
  rw [UInt32.toNat_add]
  rfl

section Loop

variable {self : Incremental R} {L : Lib R V P} {vertices : List V} {in_ : Edge R}
  {rest : List WordID} {loc : Locals R P}

/-- A terminal: its KenLM index joins the words. -/
theorem convertLoop_terminal {w : WordID} (hw : ¬ w ≤ 0) :
    convertLoop self L vertices in_ (w :: rest) loc =
      convertLoop self L vertices in_ rest
        { loc with terminals := loc.terminals + 1, words := loc.words ++ [self.vocab_.FromCDec w] } := by
  rw [convertLoop, if_neg hw]

/-- A slot whose tail `t` and vertex `v` lie inside their arrays: an empty
vertex drops the edge, any other fills the slot. -/
theorem convertLoop_slot {w : WordID} {t : Nat} {v : V} (hw : w ≤ 0) (ho : ¬ -w > INT_MAX)
    (ht : in_.tail_nodes_[(-w).toNat]? = some t) (hv : vertices[t]? = some v) :
    convertLoop self L vertices in_ (w :: rest) loc =
      if L.Empty (L.RootPartial v) then .ok none else
      convertLoop self L vertices in_ rest
        { loc with nts := loc.nts ++ [L.RootPartial v], score := loc.score + L.Bound (L.RootPartial v),
                   words := loc.words ++ [kMaxWordIndex] } := by
  simp only [convertLoop, if_pos hw, if_neg ho, subscript_of_some ht, ok_bind, subscript_of_some hv]

theorem not_overflow {w : WordID} (h : INT_MIN < w) : ¬ -w > INT_MAX := by
  unfold INT_MIN at h
  unfold INT_MAX WordID at *
  omega

/-- When the loop runs to the end, it has pushed `wordOf` of each word and
one nonterminal per slot. -/
theorem convertLoop_some {ws : List WordID} {loc loc' : Locals R P}
    (h : convertLoop self L vertices in_ ws loc = .ok (some loc')) :
    loc'.words = loc.words ++ ws.map (wordOf self) ∧
      loc'.nts.length = loc.nts.length + (ws.filter (· ≤ 0)).length := by
  induction ws generalizing loc with
  | nil => cases h; simp
  | cons w rest ih =>
    by_cases hw : w ≤ 0
    · simp only [convertLoop, if_pos hw] at h
      split at h
      · cases h
      obtain ⟨t, -, h⟩ := bind_ok.mp h
      obtain ⟨v, -, h⟩ := bind_ok.mp h
      split at h
      · cases h
      obtain ⟨hw', hn⟩ := ih h
      simp only [List.length_append, List.length_singleton] at hn
      refine ⟨by simp [hw', wordOf, hw], ?_⟩
      simp only [hn, List.filter_cons, hw, decide_True, if_true, List.length_cons]
      omega
    · obtain ⟨hw', hn⟩ := ih ((convertLoop_terminal hw).symm.trans h)
      refine ⟨by simp [hw', wordOf, hw], ?_⟩
      simp only [hn, List.filter_cons, hw, decide_False, Bool.false_eq_true, if_false]

/-- With every slot in range, the loop reads each slot's partial vertex; it
drops the edge when one of them is empty, and otherwise runs to the end
having pushed them in order, added their bounds, pushed `wordOf` of each word
and counted the terminals in an `unsigned int`. -/
theorem convertLoop_spec {ws : List WordID} (hs : ∀ w ∈ ws, w ≤ 0 → INT_MIN < w ∧
      ∃ t, in_.tail_nodes_[(-w).toNat]? = some t ∧ t < vertices.length) (loc : Locals R P) :
    ∃ (ps : List P) (loc' : Locals R P),
      (ws.filter (· ≤ 0)).map (slotPartial L vertices in_) = ps.map some ∧
      convertLoop self L vertices in_ ws loc = .ok (if ps.any L.Empty then none else some loc') ∧
      loc'.words = loc.words ++ ws.map (wordOf self) ∧ loc'.nts = loc.nts ++ ps ∧
      loc'.terminals.toNat = (loc.terminals.toNat + (ws.filter (0 < ·)).length) % 2 ^ 32 ∧
      loc'.score = loc.score + (ps.map L.Bound).sum := by
  induction ws generalizing loc with
  | nil =>
    refine ⟨[], loc, rfl, rfl, by simp, by simp, ?_, by simp⟩
    rw [List.filter_nil, List.length_nil, Nat.add_zero, Nat.mod_eq_of_lt loc.terminals.toNat_lt]
  | cons w rest ih =>
    have ih := ih fun w' h => hs w' (.tail _ h)
    by_cases hw : w ≤ 0
    · obtain ⟨hmin, t, ht, hlt⟩ := hs w (.head _) hw
      have hv := List.getElem?_eq_getElem hlt
      obtain ⟨ps, loc', hps, h, hws, hn, hter, hsc⟩ := ih { loc with
        nts := loc.nts ++ [L.RootPartial vertices[t]],
        score := loc.score + L.Bound (L.RootPartial vertices[t]), words := loc.words ++ [kMaxWordIndex] }
      refine ⟨L.RootPartial vertices[t] :: ps, loc', ?_, ?_, ?_, ?_, ?_, ?_⟩
      · simp [List.filter_cons, hw, slotPartial, ht, hv, hps]
      · rw [convertLoop_slot hw (not_overflow hmin) ht hv, h, List.any_cons]
        cases L.Empty (L.RootPartial vertices[t]) <;> rfl
      · simp [hws, wordOf, hw]
      · simp [hn]
      · simp only [hter, List.filter_cons, hw, not_lt.mpr hw, decide_False, Bool.false_eq_true,
          if_false]
      · simp only [hsc, List.map_cons, List.sum_cons, add_assoc]
    · obtain ⟨ps, loc', hps, h, hws, hn, hter, hsc⟩ := ih { loc with
        terminals := loc.terminals + 1, words := loc.words ++ [self.vocab_.FromCDec w] }
      refine ⟨ps, loc', ?_, by rw [convertLoop_terminal hw, h], ?_, hn, ?_, hsc⟩
      · simpa [List.filter_cons, hw] using hps
      · simp [hws, wordOf, hw]
      · rw [hter, toNat_add_one, List.filter_cons, if_pos (by simpa using not_le.mp hw),
          List.length_cons]
        omega

end Loop

section Edge

variable [CMath R] {self : Incremental R} {L : Lib R V P} {final : Bool} {vertices : List V}
  {in_ : Edge R} {gen : List (PartialEdge R P)}

omit [LinearOrderedField R] [CMath R] in
/-- The loop finds no slot exactly when the rule has no nonterminal. -/
theorem slots_eq_nil_iff {f : WordID → Option P} {ps : List P}
    (hps : (in_.e.filter (· ≤ 0)).map f = ps.map some) : ps = [] ↔ TerminalsOnly in_ := by
  rw [← @List.map_eq_nil_iff _ _ some, ← hps, List.map_eq_nil_iff, List.filter_eq_nil_iff]
  simp only [decide_eq_true_eq, not_le, TerminalsOnly]

/-- On a rule without nonterminals the loop pushes no partial vertex, and
line 160 takes `&nts[0]` of the empty `nts`. -/
theorem convertEdge_terminals_only (ht : TerminalsOnly in_) :
    ConvertEdge self L final vertices in_ gen = .error (.subscript .nts 0) := by
  obtain ⟨ps, loc, hps, h, -, hn, -⟩ := @convertLoop_spec R V P _ self L vertices in_ in_.e
    (fun w hw h0 => absurd (ht w hw) (not_lt.mpr h0)) ⟨[], [], 0, 0⟩
  obtain rfl := (slots_eq_nil_iff hps).mpr ht
  rw [ConvertEdge, h, ok_bind]
  simp only [List.any_nil, Bool.false_eq_true, if_false, hn]
  rfl

/-- With every slot's tail inside `tail_nodes_` and inside the vertices,
ConvertEdge does not fault on a rule with a nonterminal. -/
theorem convertEdge_ok (hs : ∀ w ∈ in_.e, w ≤ 0 → INT_MIN < w ∧
      ∃ t, in_.tail_nodes_[(-w).toNat]? = some t ∧ t < vertices.length) (hnt : ¬ TerminalsOnly in_) :
    ∃ gen', ConvertEdge self L final vertices in_ gen = .ok gen' := by
  obtain ⟨ps, loc, hps, h, -, hn, -⟩ := @convertLoop_spec R V P _ self L vertices in_ in_.e hs
    ⟨[], [], 0, 0⟩
  obtain ⟨p, ps, rfl⟩ := List.exists_cons_of_ne_nil (mt (slots_eq_nil_iff hps).mp hnt)
  rw [ConvertEdge, h, ok_bind]
  cases (p :: ps).any L.Empty
  · simp only [Bool.false_eq_true, if_false, hn, List.nil_append, subscript_of_lt (List.length_pos.mpr
      (List.cons_ne_nil p ps)), ok_bind]
    exact ⟨_, rfl⟩
  · exact ⟨_, rfl⟩

/-- With every slot's tail inside `tail_nodes_` and inside the vertices,
ConvertEdge reads each slot's partial vertex, one per slot, in order.  With
none, the rule has no nonterminal and line 160 takes `&nts[0]` of the empty
`nts`: the fault `subscript`.  Otherwise it leaves the generator as it was
when one of them is empty, and adds the edge with them and the score of
lines 166-169: the slots' bounds, the rule's features against cdec's
weights, the word penalty of its terminals (counted in an `unsigned int`),
and KenLM's score of its words. -/
theorem convertEdge_spec (hs : ∀ w ∈ in_.e, w ≤ 0 → INT_MIN < w ∧
      ∃ t, in_.tail_nodes_[(-w).toNat]? = some t ∧ t < vertices.length) :
    ∃ ps : List P, (in_.e.filter (· ≤ 0)).map (slotPartial L vertices in_) = ps.map some ∧
      ConvertEdge self L final vertices in_ gen =
        if ps.isEmpty then .error (.subscript .nts 0) else
        .ok (if ps.any L.Empty then gen else gen ++ [⟨ps, in_,
          (ps.map L.Bound).sum + L.dot in_.features self.cdec_weights_
            - (((in_.e.filter (0 < ·)).length % 2 ^ 32 : Nat) : R) * L.WordPenalty / CMath.log 10
            + L.ScoreRule (if final then in_.e.map (wordOf self) ++ [L.EndSentence]
                else in_.e.map (wordOf self)) final⟩]) := by
  obtain ⟨ps, loc, hps, h, hws, hn, hter, hsc⟩ := convertLoop_spec hs ⟨[], [], 0, 0⟩
  simp only [List.nil_append, UInt32.toNat_zero, zero_add] at hws hn hter hsc
  refine ⟨ps, hps, ?_⟩
  rw [ConvertEdge, h, ok_bind]
  rcases ps with _ | ⟨p, ps⟩
  · simp only [List.any_nil, Bool.false_eq_true, if_false, List.isEmpty_nil, if_true, hn]
    rfl
  · rw [List.isEmpty_cons, if_neg Bool.false_ne_true]
    cases (p :: ps).any L.Empty
    · simp only [Bool.false_eq_true, if_false, hn, subscript_of_lt (List.length_pos.mpr
        (List.cons_ne_nil p ps)), ok_bind, hws, hter, hsc]
    · rfl

/-- The rule `2 [0]` over a vertex of bound `1`, with the feature `(0, 2)`
that scores `6` against cdec's weights, a word penalty of `1` and a rule
score of `0`: ConvertEdge adds the edge with its one partial vertex and the
score `1 + 6 - 1 / ln 10`.  The rule `2` has no nonterminal: ConvertEdge
faults at `&nts[0]`. -/
theorem convertEdge_spec_one_slot :
    let self : Incremental ℝ := ⟨⟨⟨[0, 5, 6]⟩, by decide⟩, [3]⟩
    let L : Lib ℝ Unit Unit := ⟨(), fun _ => (), fun _ => false, fun _ => 1, fun _ _ => (),
      fun _ => none, fun _ _ => 0, 0, 1, fun _ _ => 6⟩
    let in_ : Edge ℝ := ⟨[2, 0], [(0, 2)], [0]⟩
    ConvertEdge self L false [()] in_ [] = .ok [⟨[()], in_, 7 - 1 / Real.log 10⟩] ∧
      ConvertEdge self L false [()] ⟨[2], [], []⟩ [] = .error (.subscript .nts 0) := by
  intro self L in_
  obtain ⟨ps, hps, h⟩ := @convertEdge_spec ℝ Unit Unit _ _ self L false [()] in_ [] (by decide)
  obtain rfl : ps = [()] :=
    List.map_injective_iff.mpr (Option.some_injective _) (hps.symm.trans rfl)
  obtain ⟨ps', hps', h'⟩ := @convertEdge_spec ℝ Unit Unit _ _ self L false [()] ⟨[2], [], []⟩ []
    (by decide)
  obtain rfl : ps' = [] := List.map_eq_nil_iff.mp hps'.symm
  rw [h, h']
  norm_num

end Edge

end Cdec.Decoder
