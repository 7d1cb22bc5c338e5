import Cdec.Decoder.ConvertEdge

/-!
# `Cdec.Decoder.PrintFinal` — the translation the incremental decoder prints

The search returns its best derivation as a tree of `search::Final`s, each
noting the hypergraph edge ConvertEdge built its PartialEdge from and holding
one child per nonterminal slot.  `PrintFinal` walks the target side `e` of
the edge's rule: it prints a terminal `w > 0` as `TD::Convert(w)` and a
space, and at a slot `w ≤ 0` prints the next child, `*child++`.  The model
returns the words printed, in order.

## What is proved

* `printFinal_mk`: on a `Final` with as many children as slots, PrintFinal
  prints the rule's words with the `k`-th slot replaced by what the `k`-th
  child prints (`fillSlots`).
* `printFinal_spells_words`: for every derivation the search can return
  (`Derives`), PrintFinal dereferences exactly the children there are, the
  `k`-th a derivation of the tail of the `k`-th slot, and what it prints,
  mapped through `FromCDec`, is the sequence ConvertEdge's words spell out
  with each placeholder replaced, in order, by the child's (`spell`).

`PrintFinal`'s `hg` argument is only passed down; the model leaves it out.
-/

namespace Cdec.Decoder

variable {R V P : Type}

mutual
/-- `PrintFinal` (lines 99-109): the words printed for a derivation. -/
def PrintFinal : Final R → Except Fault (List WordID)
  | .mk note children _ => printWords note.e 0 children
termination_by f => (sizeOf f, 0)

/-- The loop of lines 102-108 over the words of `e` still to come, `child`
pointing at `Children()[k]`; a slot past the last child reads past the end
of the children. -/
def printWords : List WordID → Nat → List (Final R) → Except Fault (List WordID)
  | [], _, _ => .ok []
  | w :: ws, k, child =>
    if w > 0 then (w :: ·) <$> printWords ws k child
    else match child with
      | [] => .error (.subscript .children k)
      | c :: cs => PrintFinal c >>= fun s => (s ++ ·) <$> printWords ws (k + 1) cs
termination_by ws _ child => (sizeOf child, ws.length + 1)
end

/-- `words` with the `k`-th position flagged in `slots` replaced by the
`k`-th of `subs`. -/
def fillSlots {α : Type} : List Bool → List α → List (List α) → List α
  | true :: slots, _ :: words, sub :: subs => sub ++ fillSlots slots words subs
  | false :: slots, x :: words, subs => x :: fillSlots slots words subs
  | _, _, _ => []

mutual
/-- The words a derivation spells out, read from ConvertEdge: the words it
pushes for the edge (`wordOf`), each slot's placeholder replaced, in order,
by what the slot's child spells out. -/
def spell (self : Incremental R) : Final R → List WordIndex
  | .mk note children _ =>
    fillSlots (note.e.map (· ≤ 0)) (note.e.map (wordOf self)) (spellAll self children)

/-- `spell` of each child. -/
def spellAll (self : Incremental R) : List (Final R) → List (List WordIndex)
  | [] => []
  | c :: cs => spell self c :: spellAll self cs
end

/-- The tail each slot of an edge is filled from, in slot order:
`tail_nodes_[-w]` for each word `w ≤ 0` of `e`. -/
def slotTails (ed : Edge R) : List (Option Nat) :=
  (ed.e.filter (· ≤ 0)).map fun w => ed.tail_nodes_[(-w).toNat]?

/-- `f` is a derivation of node `v` as the search returns it: its note is one
of the edges into `v`, every slot of that edge has a tail, and `f` has one
child per slot, in slot order, the `k`-th a derivation of the `k`-th slot's
tail. -/
inductive Derives (hg : Hypergraph R) : Final R → Nat → Prop
  | mk {v ei : Nat} {node : Node} {note : Edge R} {children : List (Final R)} {score : R}
      (hv : hg.nodes_[v]? = some node) (hin : ei ∈ node.in_edges_)
      (hnote : hg.edges_[ei]? = some note) (htails : none ∉ slotTails note)
      (hlen : children.length = (slotTails note).length)
      (hchild : ∀ (k : Nat) c t, children[k]? = some c → (slotTails note)[k]? = some (some t) →
        Derives hg c t) :
      Derives hg (.mk note children score) v

section Print

theorem spellAll_eq (self : Incremental R) : ∀ cs : List (Final R), spellAll self cs = cs.map (spell self)
  | [] => rfl
  | c :: cs => by rw [spellAll, spellAll_eq self cs, List.map_cons]

/-- On as many children as `ws` has slots, each printing its words, the loop
prints `ws` with the `k`-th slot replaced by the `k`-th child's words. -/
theorem printWords_fill : ∀ (ws : List WordID) (k : Nat) (cs : List (Final R))
    (outs : List (List WordID)), cs.mapM PrintFinal = .ok outs →
    (ws.filter (· ≤ 0)).length = cs.length → printWords ws k cs = .ok (fillSlots (ws.map (· ≤ 0)) ws outs)
  | [], _, _, _, _, _ => by rw [printWords]; rfl
  | w :: ws, k, cs, outs, hm, hl => by
    by_cases hw : w ≤ 0
    · rw [List.filter_cons_of_pos (by simpa using hw), List.length_cons] at hl
      obtain ⟨c, cs, rfl⟩ := List.exists_cons_of_length_eq_add_one hl.symm
      simp only [List.mapM_cons, bind_ok, pure, Except.pure, Except.ok.injEq] at hm
      obtain ⟨o, ho, os, hos, rfl⟩ := hm
      rw [printWords, if_neg (not_lt.mpr hw), ho, ok_bind,
        printWords_fill ws (k + 1) cs os hos (Nat.succ.inj hl)]
      simp [fillSlots, hw]
    · rw [List.filter_cons_of_neg (by simpa using hw)] at hl
      rw [printWords.eq_def]
      dsimp only
      rw [if_pos (not_le.mp hw), printWords_fill ws k cs outs hm hl]
      simp [fillSlots, hw]

/-- On a `Final` with as many children as slots, PrintFinal prints the rule's
words with the `k`-th slot replaced by what the `k`-th child prints. -/
theorem printFinal_mk {note : Edge R} {children : List (Final R)} {score : R}
    {outs : List (List WordID)} (hm : children.mapM PrintFinal = .ok outs)
    (hl : (note.e.filter (· ≤ 0)).length = children.length) :
    PrintFinal (.mk note children score) = .ok (fillSlots (note.e.map (· ≤ 0)) note.e outs) := by
  rw [PrintFinal]
  exact printWords_fill _ _ _ _ hm hl

/-- What PrintFinal prints, mapped through `FromCDec`: each terminal becomes
the word ConvertEdge pushes for it. -/
theorem map_fillSlots (self : Incremental R) : ∀ (ws : List WordID) (outs : List (List WordID)),
    (fillSlots (ws.map (· ≤ 0)) ws outs).map self.vocab_.FromCDec =
      fillSlots (ws.map (· ≤ 0)) (ws.map (wordOf self)) (outs.map (List.map self.vocab_.FromCDec))
  | [], _ => rfl
  | w :: ws, outs => by
    by_cases hw : w ≤ 0
    · cases outs with
      | nil => simp [fillSlots, hw]
      | cons o os => simp [fillSlots, hw, map_fillSlots self ws os]
    · simp [fillSlots, hw, wordOf, map_fillSlots self ws outs]

theorem mapM_printFinal (self : Incremental R) : ∀ cs : List (Final R),
    (∀ c ∈ cs, ∃ out, PrintFinal c = .ok out ∧ out.map self.vocab_.FromCDec = spell self c) →
    ∃ outs, cs.mapM PrintFinal = .ok outs ∧
      outs.map (List.map self.vocab_.FromCDec) = cs.map (spell self)
  | [], _ => ⟨[], rfl, rfl⟩
  | c :: cs, h => by
    obtain ⟨o, ho, hmo⟩ := h c (.head _)
    obtain ⟨os, hos, hmos⟩ := mapM_printFinal self cs fun c' hc' => h c' (.tail _ hc')
    refine ⟨o :: os, ?_, by simp [hmo, hmos]⟩
    simp only [List.mapM_cons, ho, hos, ok_bind]
    rfl

/-- Every derivation the search can return prints, mapped through
`FromCDec`, what it spells out. -/
theorem printFinal_spell (self : Incremental R) {hg : Hypergraph R} {f : Final R} {v : Nat}
    (hd : Derives hg f v) :
    ∃ outs, f.children.mapM PrintFinal = .ok outs ∧
      PrintFinal f = .ok (fillSlots (f.note.e.map (· ≤ 0)) f.note.e outs) ∧
      (fillSlots (f.note.e.map (· ≤ 0)) f.note.e outs).map self.vocab_.FromCDec = spell self f := by
  induction hd with
  | @mk v ei node note children score hv hin hnote htails hlen hchild ih =>
    have hc : ∀ c ∈ children, ∃ out, PrintFinal c = .ok out ∧
        out.map self.vocab_.FromCDec = spell self c := by
      intro c hc
      obtain ⟨k, hk⟩ := List.mem_iff_getElem?.mp hc
      obtain ⟨s, hs⟩ : ∃ s, (slotTails note)[k]? = some s :=
        ⟨_, List.getElem?_eq_getElem (hlen ▸ (List.getElem?_eq_some_iff.mp hk).1)⟩
      obtain ⟨t, rfl⟩ : ∃ t, s = some t :=
        Option.ne_none_iff_exists'.mp fun h => htails (h ▸ List.getElem?_mem hs)
      obtain ⟨_, -, hpc, hsc⟩ := ih k c t hk hs
      exact ⟨_, hpc, hsc⟩
    obtain ⟨outs, hm, hmap⟩ := mapM_printFinal self children hc
    refine ⟨outs, hm, printFinal_mk hm (by rw [hlen, slotTails, List.length_map]), ?_⟩
    rw [map_fillSlots, hmap, spell, spellAll_eq]
    rfl

end Print

/-- For every derivation the search can return: its edge's rule has as many
slots as the derivation has children, and ConvertEdge allocates as many
nonterminals; PrintFinal prints the rule's words with the `k`-th slot
replaced by what the `k`-th child prints, that child being a derivation of
the `k`-th slot's tail; and what it prints, mapped through `FromCDec`, is
the sequence of ConvertEdge's words with each placeholder replaced, in
order, by what the slot's child spells out. -/
theorem printFinal_spells_words [LinearOrderedField R] (self : Incremental R) (L : Lib R V P)
    (hg : Hypergraph R) {f : Final R} {v : Nat} (hd : Derives hg f v) :
    (f.note.e.filter (· ≤ 0)).length = f.children.length ∧
    (∀ vertices loc, convertLoop self L vertices f.note f.note.e ⟨[], [], 0, 0⟩ = .ok (some loc) →
      loc.nts.length = f.children.length ∧ loc.words = f.note.e.map (wordOf self)) ∧
    ∃ out, PrintFinal f = .ok out ∧
      PrintFinal f = (f.children.mapM PrintFinal).map (fillSlots (f.note.e.map (· ≤ 0)) f.note.e) ∧
      out.map self.vocab_.FromCDec = spell self f := by
  have hcount : (f.note.e.filter (· ≤ 0)).length = f.children.length := by
    cases hd with
    | mk _ _ _ _ hlen _ => rw [Final.children, Final.note, hlen, slotTails, List.length_map]
  obtain ⟨outs, hm, hp, hs⟩ := printFinal_spell self hd
  refine ⟨hcount, fun vertices loc h => ?_, _, hp, by rw [hp, hm]; rfl, hs⟩
  obtain ⟨hw, hn⟩ := convertLoop_some h
  exact ⟨by rw [hn, ← hcount, List.length_nil, zero_add], hw⟩

/-- The rule `1 [0]` over the rule `2`, with KenLM's indices `5` and `6` for
the words `1` and `2`: PrintFinal prints `1 2`, which `FromCDec` maps to
`5 6`. -/
theorem printFinal_spells_words_two_rules :
    let leaf : Edge ℚ := ⟨[2], [], []⟩
    let top : Edge ℚ := ⟨[1, 0], [], [0]⟩
    let vocab : LoadedVocab := ⟨⟨[0, 5, 6]⟩, by decide⟩
    ∃ out, PrintFinal (Final.mk top [.mk leaf [] 0] 0) = .ok out ∧ out.map vocab.FromCDec = [5, 6] := by
  intro leaf top vocab
  let hg : Hypergraph ℚ := ⟨[⟨[0]⟩, ⟨[1]⟩], [leaf, top]⟩
  have hleaf : Derives hg (.mk leaf [] 0) 0 :=
    @Derives.mk ℚ hg 0 0 ⟨[0]⟩ leaf [] 0 rfl (by decide) rfl (by decide) rfl
      fun k c t hc _ => by simp at hc
  have hd : Derives hg (.mk top [.mk leaf [] 0] 0) 1 :=
    @Derives.mk ℚ hg 1 1 ⟨[1]⟩ top [.mk leaf [] 0] 0 rfl (by decide) rfl (by decide) rfl
      fun k c t hc hs => by
        rcases k with _ | k
        · simp only [List.getElem?_cons_zero, Option.some.injEq] at hc
          cases hc
          cases hs
          exact hleaf
        · simp at hc
  obtain ⟨-, -, out, hp, -, hs⟩ := printFinal_spells_words (⟨vocab, []⟩ : Incremental ℚ)
    (⟨(), fun _ => (), fun _ => false, fun _ => 0, fun _ _ => (), fun _ => none, fun _ _ => 0, 0, 0,
      fun _ _ => 0⟩ : Lib ℚ Unit Unit) hg hd
  exact ⟨out, hp, hs.trans rfl⟩

end Cdec.Decoder
