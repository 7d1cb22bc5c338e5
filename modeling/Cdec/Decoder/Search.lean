import Cdec.Decoder.PrintFinal

/-!
# `Cdec.Decoder.Search` — `Incremental::Search` of `decoder/incremental.cc`

Search allocates one `search::Vertex` per node of the hypergraph and, for
`i` from `0` while `i < hg.nodes_.size() - 1`, converts every edge into node
`i` (ConvertEdge) and searches the vertex of node `i` from them.  The last
node is never searched: the best derivation is read from the vertex of node
`hg.nodes_.size() - 2`, and printed.

`i` and `j` are `unsigned int`s compared with `size_t` bounds, and
`hg.nodes_.size() - 1` and `- 2` are `size_t` differences: `sizeT` of the
`int` difference.  A loop that does not end on its own (`i` wraps at `2^32`
below a bound past it) runs as long as its fuel.

## What is proved

* `search_in_bounds`: on a hypergraph of at least two nodes, in topological
  order, whose in-edges lie in range and whose rules read only existing tails,
  Search indexes `hg.nodes_`, `hg.edges_`, `out_vertices` and `tail_nodes_`
  only within bounds, and its node loop is `nodeLoopFilled`, the loop that
  hands ConvertEdge only the vertices earlier iterations have filled.
* `search_faults_below_two_nodes`: on one node, Search reads
  `out_vertices[2^64 - 1]`; on none, `hg.nodes_[0]`.
* `search_outcome`: with fuel for the nodes and their in-edges, fewer than
  `2^32` of each, Search faults at ConvertEdge's `&nts[0]` exactly when an
  edge into a node it searches has a rule without nonterminals
  (`TerminalRuleFrom`), as every edge into node `0` has; otherwise it
  completes, and prints what the best derivation spells when the search
  library returns derivations of the hypergraph.

Edge indices in `in_edges_` and tails in `tail_nodes_` are non-negative
`int`s, so their `unsigned` and pointer uses keep their values.
-/

namespace Cdec.Decoder

variable {R V P : Type} [LinearOrderedField R] [CMath R]

/-- The loop of lines 119-122: ConvertEdge on each edge into the node, `j`
an `unsigned int`. -/
def edgeLoop (self : Incremental R) (L : Lib R V P) (hg : Hypergraph R) (final : Bool)
    (vertices : List V) (down_edges : List Nat) :
    Nat → UInt32 → List (PartialEdge R P) → Except Fault (List (PartialEdge R P))
  | fuel, j, gen =>
    if h : j.toNat < down_edges.length then
      match fuel with
      | 0 => .error .outOfFuel
      | fuel + 1 =>
        subscript .edges_ hg.edges_ down_edges[j.toNat] >>= fun edge =>
        ConvertEdge self L final vertices edge gen >>= fun gen =>
        edgeLoop self L hg final vertices down_edges fuel (j + 1) gen
    else .ok gen

/-- The loop of lines 116-125: node `i` searched from the edges into it. -/
def nodeLoop (self : Incremental R) (L : Lib R V P) (pop_limit : Nat) (hg : Hypergraph R) :
    Nat → UInt32 → List V → Except Fault (List V)
  | fuel, i, out_vertices =>
    if i.toNat < sizeT ((hg.nodes_.length : Int) - 1) then
      match fuel with
      | 0 => .error .outOfFuel
      | fuel + 1 =>
        subscript .nodes_ hg.nodes_ i.toNat >>= fun node =>
        edgeLoop self L hg (i.toNat == sizeT ((hg.nodes_.length : Int) - 2)) out_vertices
          node.in_edges_ fuel 0 [] >>= fun gen =>
        subscript .out_vertices out_vertices i.toNat >>= fun _ =>
        nodeLoop self L pop_limit hg fuel (i + 1) (out_vertices.set i.toNat (L.Search pop_limit gen))
    else .ok out_vertices

/-- What Search prints: `NO PATH FOUND`, or the words of the best derivation
and its score. -/
inductive Output (R : Type) where
  | noPath
  | translation (words : List WordID) (score : R)

/-- `Incremental::Search` (lines 111-133). -/
def Search (self : Incremental R) (L : Lib R V P) (pop_limit : Nat) (hg : Hypergraph R)
    (fuel : Nat) : Except Fault (Output R) :=
  nodeLoop self L pop_limit hg fuel 0 (List.replicate hg.nodes_.length L.Vertex) >>= fun out_vertices =>
  subscript .out_vertices out_vertices (sizeT ((hg.nodes_.length : Int) - 2)) >>= fun top =>
  match L.BestChild top with
  | none => .ok .noPath
  | some top => PrintFinal top >>= fun words => .ok (.translation words top.score)

/-- Below the bound `hg.nodes_.size() - 1` of a hypergraph with a node, `i + 1`
is still a node. -/
theorem succ_lt_of_lt_sizeT {i n : Nat} (hn : 1 ≤ n) (h : i < sizeT ((n : Int) - 1)) : i + 1 < n := by
  rw [sizeT] at h
  omega

/-- `hg.nodes_.size() - 2` is a node once there are two. -/
theorem sizeT_sub_two_lt {n : Nat} (hn : 2 ≤ n) : sizeT ((n : Int) - 2) < n := by
  rw [sizeT]
  omega

/-- `++` on an `unsigned int` below `2^32 - 1`. -/
theorem toNat_add_one_of_lt {j : UInt32} (h : j.toNat + 1 < 2 ^ 32) : (j + 1).toNat = j.toNat + 1 := by
  rw [toNat_add_one]
  exact Nat.mod_eq_of_lt h

/-- The hypergraphs Search is written for: nodes in topological order (an
edge's tails come before the node it enters), in-edges inside `edges_`, and
rules whose slots name existing tails, with `-w` an `int`. -/
structure Ordered (hg : Hypergraph R) : Prop where
  topo : ∀ (i : Nat) (node : Node), hg.nodes_[i]? = some node → ∀ ei ∈ node.in_edges_,
    ∀ ed : Edge R, hg.edges_[ei]? = some ed → ∀ t ∈ ed.tail_nodes_, t < i
  in_edges : ∀ node ∈ hg.nodes_, ∀ ei ∈ node.in_edges_, ei < hg.edges_.length
  tails : ∀ ed ∈ hg.edges_, ∀ w ∈ ed.e, w ≤ 0 → INT_MIN < w ∧ -w < ed.tail_nodes_.length

/-- An edge into one of the nodes `i`, `i + 1`, … that the node loop searches
(all but the last) whose rule has no nonterminal: ConvertEdge takes `&nts[0]`
of an empty vector on it. -/
def TerminalRuleFrom (hg : Hypergraph R) (i : Nat) : Prop :=
  ∃ k node, i ≤ k ∧ k + 1 < hg.nodes_.length ∧ hg.nodes_[k]? = some node ∧
    ∃ ei ∈ node.in_edges_, ∃ ed, hg.edges_[ei]? = some ed ∧ TerminalsOnly ed

section Terminal

omit [LinearOrderedField R] [CMath R]

variable {hg : Hypergraph R}

/-- `TerminalRuleFrom` one node at a time. -/
theorem terminalRuleFrom_iff {i : Nat} {node : Node} (hn : hg.nodes_[i]? = some node) :
    TerminalRuleFrom hg i ↔ (i + 1 < hg.nodes_.length ∧
      ∃ ei ∈ node.in_edges_, ∃ ed, hg.edges_[ei]? = some ed ∧ TerminalsOnly ed) ∨
      TerminalRuleFrom hg (i + 1) := by
  constructor
  · rintro ⟨k, node', hk, hkN, hk', hed⟩
    rcases Nat.eq_or_lt_of_le hk with rfl | hk
    · rw [hn, Option.some.injEq] at hk'
      exact .inl ⟨hkN, hk' ▸ hed⟩
    · exact .inr ⟨k, node', hk, hkN, hk', hed⟩
  · rintro (⟨hiN, hed⟩ | ⟨k, node', hk, hkN, hk', hed⟩)
    · exact ⟨i, node, le_rfl, hiN, hn, hed⟩
    · exact ⟨k, node', by omega, hkN, hk', hed⟩

theorem not_terminalRuleFrom {i : Nat} (h : hg.nodes_.length ≤ i + 1) : ¬ TerminalRuleFrom hg i :=
  fun ⟨k, _, hk, hkN, _⟩ => by omega

/-- On an ordered hypergraph an edge into node `0` names no tail, so its rule
has no nonterminal: from two nodes on, an edge into node `0` is a rule
without nonterminals that the node loop reaches. -/
theorem terminalRuleFrom_zero (hord : Ordered hg) (hN : 2 ≤ hg.nodes_.length) {node : Node}
    (hn : hg.nodes_[0]? = some node) (hin : node.in_edges_ ≠ []) : TerminalRuleFrom hg 0 := by
  obtain ⟨ei, hei⟩ := List.exists_mem_of_ne_nil _ hin
  obtain ⟨ed, hed⟩ : ∃ ed, hg.edges_[ei]? = some ed :=
    ⟨_, List.getElem?_eq_getElem (hord.in_edges node (List.getElem?_mem hn) ei hei)⟩
  refine ⟨0, node, le_rfl, by omega, hn, ei, hei, ed, hed, fun w hw => ?_⟩
  by_contra h0
  obtain ⟨-, hlen⟩ := hord.tails ed (List.getElem?_mem hed) w hw (not_lt.mp h0)
  obtain ⟨t, ht⟩ := List.exists_mem_of_ne_nil ed.tail_nodes_ fun h => by
    rw [h, List.length_nil, Nat.cast_zero] at hlen
    unfold WordID at h0 hlen
    omega
  exact absurd (hord.topo 0 node hn ei hei ed hed t ht) (Nat.not_lt_zero t)

end Terminal

section Loops

variable {self : Incremental R} {L : Lib R V P} {hg : Hypergraph R} {final : Bool}
  {down_edges : List Nat}

variable {pop_limit : Nat}

/-- The node loop keeps one vertex per node. -/
theorem nodeLoop_length (fuel : Nat) : ∀ i (vs vs' : List V),
    nodeLoop self L pop_limit hg fuel i vs = .ok vs' → vs'.length = vs.length := by
  induction fuel with
  | zero =>
    intro i vs vs' h
    rw [nodeLoop] at h
    split at h <;> cases h
    rfl
  | succ fuel ih =>
    intro i vs vs' h
    rw [nodeLoop] at h
    split at h
    · obtain ⟨_, -, h⟩ := bind_ok.mp h
      obtain ⟨_, -, h⟩ := bind_ok.mp h
      obtain ⟨_, -, h⟩ := bind_ok.mp h
      rw [ih _ _ _ h, List.length_set]
    · cases h; rfl

/-- On an ordered hypergraph, every edge into node `i` lies in `edges_`, and
ConvertEdge on it, against any vertices beyond `i`, faults at `&nts[0]` when
its rule has no nonterminal and completes otherwise. -/
theorem convertEdge_of_ordered (hord : Ordered hg) {i : Nat} {node : Node}
    (hn : hg.nodes_[i]? = some node) {vs : List V} (hi : i < vs.length) :
    ∀ ei ∈ node.in_edges_, ∃ ed, hg.edges_[ei]? = some ed ∧ ∀ gen,
      (TerminalsOnly ed → ConvertEdge self L final vs ed gen = .error (.subscript .nts 0)) ∧
      (¬ TerminalsOnly ed → ∃ gen', ConvertEdge self L final vs ed gen = .ok gen') := by
  intro ei hei
  have hlt := hord.in_edges node (List.getElem?_mem hn) ei hei
  refine ⟨_, List.getElem?_eq_getElem hlt, fun gen => ⟨convertEdge_terminals_only,
    convertEdge_ok fun w hw hw0 => ?_⟩⟩
  obtain ⟨hmin, hlen⟩ := hord.tails _ (List.getElem_mem hlt) w hw hw0
  have ht : (-w).toNat < hg.edges_[ei].tail_nodes_.length := by
    unfold WordID at hlen hw0
    omega
  refine ⟨hmin, _, List.getElem?_eq_getElem ht, ?_⟩
  have := hord.topo _ node hn ei hei _ (List.getElem?_eq_getElem hlt) _ (List.getElem_mem ht)
  omega

/-- With fuel for every remaining edge and fewer than `2^32` edges into the
node, each in range and faulting in ConvertEdge only at `&nts[0]` of a rule
without nonterminals: the edge loop faults there if one of the remaining
edges has such a rule, and completes otherwise. -/
theorem edgeLoop_cases {vs : List V} (hlen : down_edges.length < 2 ^ 32)
    (hok : ∀ ei ∈ down_edges, ∃ ed, hg.edges_[ei]? = some ed ∧ ∀ gen,
      (TerminalsOnly ed → ConvertEdge self L final vs ed gen = .error (.subscript .nts 0)) ∧
      (¬ TerminalsOnly ed → ∃ gen', ConvertEdge self L final vs ed gen = .ok gen')) (fuel : Nat) :
    ∀ (j : UInt32) gen, down_edges.length ≤ j.toNat + fuel →
      ((∃ ei ∈ down_edges.drop j.toNat, ∃ ed, hg.edges_[ei]? = some ed ∧ TerminalsOnly ed) →
        edgeLoop self L hg final vs down_edges fuel j gen = .error (.subscript .nts 0)) ∧
      ((¬ ∃ ei ∈ down_edges.drop j.toNat, ∃ ed, hg.edges_[ei]? = some ed ∧ TerminalsOnly ed) →
        ∃ gen', edgeLoop self L hg final vs down_edges fuel j gen = .ok gen') := by
  induction fuel with
  | zero =>
    intro j gen hj
    rw [edgeLoop, dif_neg (by omega), List.drop_eq_nil_of_le (by omega)]
    exact ⟨fun ⟨_, h, _⟩ => absurd h (List.not_mem_nil _), fun _ => ⟨gen, rfl⟩⟩
  | succ fuel ih =>
    intro j gen hj
    rw [edgeLoop]
    split
    · rename_i hj'
      obtain ⟨ed, he, hc⟩ := hok _ (List.getElem_mem hj')
      rw [List.drop_eq_getElem_cons hj']
      simp only [subscript_of_some he, ok_bind]
      by_cases ht : TerminalsOnly ed
      · rw [(hc gen).1 ht, error_bind]
        exact ⟨fun _ => rfl, fun hn => absurd ⟨_, .head _, ed, he, ht⟩ hn⟩
      · obtain ⟨gen', hg'⟩ := (hc gen).2 ht
        have hj1 : (j + 1).toNat = j.toNat + 1 := toNat_add_one_of_lt (by omega)
        obtain ⟨ih1, ih2⟩ := ih (j + 1) gen' (by omega)
        rw [hj1] at ih1 ih2
        rw [hg', ok_bind]
        refine ⟨fun ⟨ei, hei, ed', he', ht'⟩ => ih1 ?_,
          fun hn => ih2 fun ⟨ei, hei, h⟩ => hn ⟨ei, .tail _ hei, h⟩⟩
        rcases List.mem_cons.mp hei with rfl | hei
        · rw [he, Option.some.injEq] at he'
          exact absurd (he' ▸ ht') ht
        · exact ⟨ei, hei, ed', he', ht'⟩
    · rw [List.drop_eq_nil_of_le (by omega)]
      exact ⟨fun ⟨_, h, _⟩ => absurd h (List.not_mem_nil _), fun _ => ⟨gen, rfl⟩⟩

/-- On an ordered hypergraph of at most `2^32` nodes, each with fewer than
`2^32` in-edges, and with fuel for the remaining nodes and for the in-edges
of each: the node loop faults at ConvertEdge's `&nts[0]` if a node it has
still to search has an edge whose rule has no nonterminal, and completes
otherwise. -/
theorem nodeLoop_cases (hord : Ordered hg) (hN : hg.nodes_.length ≤ 2 ^ 32)
    (hin : ∀ node ∈ hg.nodes_, node.in_edges_.length < 2 ^ 32) (fuel : Nat) :
    ∀ (i : UInt32) (vs : List V), vs.length = hg.nodes_.length → i.toNat < hg.nodes_.length →
      (∀ node ∈ hg.nodes_, hg.nodes_.length + node.in_edges_.length ≤ i.toNat + fuel) →
      (TerminalRuleFrom hg i.toNat → nodeLoop self L pop_limit hg fuel i vs = .error (.subscript .nts 0)) ∧
      (¬ TerminalRuleFrom hg i.toNat → ∃ vs', nodeLoop self L pop_limit hg fuel i vs = .ok vs') := by
  induction fuel with
  | zero =>
    intro i vs _ hi hf
    exact absurd (hf _ (List.getElem_mem hi)) (by omega)
  | succ fuel ih =>
    intro i vs hl hi hf
    rw [nodeLoop]
    split
    · rename_i hi'
      have hi' := succ_lt_of_lt_sizeT (Nat.one_le_of_lt hi) hi'
      have hn : hg.nodes_[i.toNat]? = some hg.nodes_[i.toNat] := List.getElem?_eq_getElem hi
      have hnode := hf _ (List.getElem_mem hi)
      obtain ⟨he1, he2⟩ := @edgeLoop_cases _ _ _ _ _ self L hg
        (i.toNat == sizeT ((hg.nodes_.length : Int) - 2)) _ _ (hin _ (List.getElem_mem hi))
        (convertEdge_of_ordered hord hn (hl ▸ hi)) fuel 0 [] (by rw [UInt32.toNat_zero]; omega)
      rw [UInt32.toNat_zero, List.drop_zero] at he1 he2
      simp only [subscript_of_some hn, ok_bind]
      by_cases ht : ∃ ei ∈ hg.nodes_[i.toNat].in_edges_, ∃ ed, hg.edges_[ei]? = some ed ∧ TerminalsOnly ed
      · rw [he1 ht, error_bind]
        exact ⟨fun _ => rfl, fun hn' => absurd ((terminalRuleFrom_iff hn).mpr (.inl ⟨hi', ht⟩)) hn'⟩
      · obtain ⟨gen, hgen⟩ := he2 ht
        have hi1 : (i + 1).toNat = i.toNat + 1 := toNat_add_one_of_lt (by omega)
        obtain ⟨ih1, ih2⟩ := ih (i + 1) (vs.set i.toNat (L.Search pop_limit gen))
          (by rw [List.length_set, hl]) (by rw [hi1]; omega)
          fun node hnode => by have := hf node hnode; rw [hi1]; omega
        rw [hi1] at ih1 ih2
        rw [hgen, ok_bind, subscript_of_lt (show i.toNat < vs.length by omega), ok_bind]
        exact ⟨fun h => ih1 (((terminalRuleFrom_iff hn).mp h).resolve_left fun h => ht h.2),
          fun h => ih2 fun h' => h ((terminalRuleFrom_iff hn).mpr (.inr h'))⟩
    · rename_i hi'
      refine ⟨fun h => absurd h (not_terminalRuleFrom ?_), fun _ => ⟨vs, rfl⟩⟩
      rw [sizeT] at hi'
      omega

end Loops


/-- Three nodes in topological order: node `0` from the rule `1`, node `1`
from `2 [0]`, and the goal node `2` from `[1]`. -/
theorem ordered_three_nodes :
    Ordered (⟨[⟨[0]⟩, ⟨[1]⟩, ⟨[2]⟩], [⟨[1], [], []⟩, ⟨[2, 0], [], [0]⟩, ⟨[0], [], [1]⟩]⟩ :
      Hypergraph ℝ) := by
  refine ⟨fun i node h ei hei ed hed t ht => ?_, by decide, by decide⟩
  match i, h with
  | 0, h | 1, h | 2, h =>
    simp only [List.getElem?_cons_zero, List.getElem?_cons_succ, Option.some.injEq] at h
    subst h
    simp only [List.mem_singleton] at hei
    subst hei
    simp only [List.getElem?_cons_zero, List.getElem?_cons_succ, Option.some.injEq] at hed
    subst hed
    simp at ht <;> omega
  | i + 3, h => simp at h

/-- On an ordered hypergraph of at least two and at most `2^32` nodes, each
with fewer than `2^32` in-edges, with fuel for the nodes and for the in-edges
of each: every edge into node `0` has a rule without nonterminals; Search
faults at ConvertEdge's `&nts[0]` when an edge into a node it searches has
such a rule; and otherwise it completes, printing `NO PATH FOUND` or, when the
search library's best child is always a derivation of the hypergraph, the
best derivation's score and words that `FromCDec` maps to what the
derivation spells out. -/
theorem search_outcome (self : Incremental R) (L : Lib R V P) (pop_limit : Nat)
    (hg : Hypergraph R) (hN : 2 ≤ hg.nodes_.length) (hN32 : hg.nodes_.length ≤ 2 ^ 32)
    (hord : Ordered hg) (hin : ∀ node ∈ hg.nodes_, node.in_edges_.length < 2 ^ 32)
    (hbest : ∀ x f, L.BestChild x = some f → ∃ v, Derives hg f v) (fuel : Nat)
    (hfuel : ∀ node ∈ hg.nodes_, hg.nodes_.length + node.in_edges_.length ≤ fuel) :
    (∀ node, hg.nodes_[0]? = some node → node.in_edges_ ≠ [] → TerminalRuleFrom hg 0) ∧
    (TerminalRuleFrom hg 0 → Search self L pop_limit hg fuel = .error (.subscript .nts 0)) ∧
    (¬ TerminalRuleFrom hg 0 → ∃ out, Search self L pop_limit hg fuel = .ok out ∧
      ∀ words score, out = .translation words score →
        ∃ top v, Derives hg top v ∧ score = top.score ∧
          words.map self.vocab_.FromCDec = spell self top) := by
  have hcases : (TerminalRuleFrom hg 0 → nodeLoop self L pop_limit hg fuel 0
        (List.replicate hg.nodes_.length L.Vertex) = .error (.subscript .nts 0)) ∧
      (¬ TerminalRuleFrom hg 0 → ∃ vs, nodeLoop self L pop_limit hg fuel 0
        (List.replicate hg.nodes_.length L.Vertex) = .ok vs) :=
    nodeLoop_cases hord hN32 hin fuel 0 _ (List.length_replicate _ _) (by rw [UInt32.toNat_zero]; omega)
      (by simpa only [UInt32.toNat_zero, zero_add] using hfuel)
  refine ⟨fun _ hn hne => terminalRuleFrom_zero hord hN hn hne, fun ht => ?_, fun ht => ?_⟩
  · rw [Search, hcases.1 ht, error_bind]
  obtain ⟨vs, hvs⟩ := hcases.2 ht
  have hl := (nodeLoop_length fuel 0 _ vs hvs).trans (List.length_replicate _ _)
  rw [Search, hvs, ok_bind, subscript_of_lt (by rw [hl]; exact sizeT_sub_two_lt hN), ok_bind]
  split
  · exact ⟨_, rfl, fun _ _ h => by cases h⟩
  · rename_i top hbc
    obtain ⟨v, hd⟩ := hbest _ _ hbc
    obtain ⟨_, -, hp, hs⟩ := printFinal_spell self hd
    rw [hp, ok_bind]
    exact ⟨_, rfl, fun words score h => by cases h; exact ⟨top, v, hd, rfl, hs⟩⟩

/-- Node `0` has no in-edge, node `1` comes from the rule `[0]` over it, and
the goal node `2` from `[1]`. -/
theorem ordered_leafless :
    Ordered (⟨[⟨[]⟩, ⟨[0]⟩, ⟨[1]⟩], [⟨[0], [], [0]⟩, ⟨[0], [], [1]⟩]⟩ : Hypergraph ℝ) := by
  refine ⟨fun i node h ei hei ed hed t ht => ?_, by decide, by decide⟩
  match i, h with
  | 0, h => simp only [List.getElem?_cons_zero, Option.some.injEq] at h; subst h; simp at hei
  | 1, h | 2, h =>
    simp only [List.getElem?_cons_zero, List.getElem?_cons_succ, Option.some.injEq] at h
    subst h
    simp only [List.mem_singleton] at hei
    subst hei
    simp only [List.getElem?_cons_zero, List.getElem?_cons_succ, Option.some.injEq] at hed
    subst hed
    simp at ht
    omega
  | i + 3, h => simp at h

/-- On the hypergraph of `ordered_three_nodes`, whose node `0` comes from the
rule `1`, Search faults at `&nts[0]`; on that of `ordered_leafless`, whose
rules all have a nonterminal, it completes. -/
theorem search_outcome_three_nodes :
    let hg : Hypergraph ℝ :=
      ⟨[⟨[0]⟩, ⟨[1]⟩, ⟨[2]⟩], [⟨[1], [], []⟩, ⟨[2, 0], [], [0]⟩, ⟨[0], [], [1]⟩]⟩
    let hg' : Hypergraph ℝ := ⟨[⟨[]⟩, ⟨[0]⟩, ⟨[1]⟩], [⟨[0], [], [0]⟩, ⟨[0], [], [1]⟩]⟩
    let self : Incremental ℝ := ⟨⟨⟨[0, 5, 6]⟩, by decide⟩, []⟩
    let L : Lib ℝ Unit Unit := ⟨(), fun _ => (), fun _ => false, fun _ => 0, fun _ _ => (),
      fun _ => none, fun _ _ => 0, 0, 0, fun _ _ => 0⟩
    Search self L 100 hg 5 = .error (.subscript .nts 0) ∧ ∃ out, Search self L 100 hg' 5 = .ok out := by
  intro hg hg' self L
  have hnt : ¬ TerminalRuleFrom hg' 0 := by
    rw [@terminalRuleFrom_iff ℝ hg' 0 ⟨[]⟩ rfl, @terminalRuleFrom_iff ℝ hg' 1 ⟨[0]⟩ rfl]
    rintro (⟨-, _, h, -⟩ | ⟨-, _, h, ed, he, ht⟩ | h)
    · exact List.not_mem_nil _ h
    · rw [List.mem_singleton.mp h] at he
      cases he
      exact absurd ht (by decide)
    · exact not_terminalRuleFrom le_rfl h
  obtain ⟨h0, hfault, -⟩ := search_outcome self L 100 hg (by decide) (by decide) ordered_three_nodes
    (by decide) (fun _ _ h => by cases h) 5 (by decide)
  obtain ⟨-, -, hok⟩ := search_outcome self L 100 hg' (by decide) (by decide) ordered_leafless
    (by decide) (fun _ _ h => by cases h) 5 (by decide)
  obtain ⟨out, h, -⟩ := hok hnt
  exact ⟨hfault (h0 _ rfl (List.cons_ne_nil _ _)), out, h⟩

end Cdec.Decoder
