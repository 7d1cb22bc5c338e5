import Cdec.Basic

/-!
# `Cdec.Decoder.MapVocab` — the vocabulary map of `decoder/incremental.cc`

KenLM enumerates its vocabulary once, when the model loads: for every word it
calls `MapVocab::Add(index, str)`, which stores KenLM's `index` of the word at
cdec's id `TD::Convert(str)`, growing the vector `out_` as it goes.  The
decoder then maps each terminal of a rule through `FromCDec`, which reads
position `0` for an id beyond the vector.

`WordID` is an `int`, `out_.size()` a `size_t`: the comparisons convert the id
with `sizeT`, and `cdec_id + 1` is an `int` sum, undefined past `INT_MAX`.

## What is proved

* `add_spec`, `enumerate_holds`: an `Add` of a positive id short of `INT_MAX`
  completes and keeps `Holds`: every id added lies inside `out_`, and `out_`
  holds at each id the index of the last word added with it (`lastIndex`).
* `fromCDec_last_add`: after a non-empty run of such `Add`s, `FromCDec` of any
  positive `int` is the index of the last word added with that id, and `0`
  when there is none, inside the vector or beyond it.
* `add_int_max_overflows`: a word whose id is `INT_MAX` stops the run.

Left out: `resize` failing to allocate below `max_size()`.
-/

namespace Cdec.Decoder

/-- `lm::WordIndex`, KenLM's index of a word: an `unsigned int`. -/
abbrev WordIndex := UInt32

/-- `INT_MAX`: `WordID` is an `int`. -/
def INT_MAX : Int := 2 ^ 31 - 1

/-- `INT_MIN`. -/
def INT_MIN : Int := -2 ^ 31

theorem INT_MAX_eq : INT_MAX = 2147483647 := rfl

/-- An `int` converted to `size_t`: its value modulo `2^64`. -/
def sizeT (x : Int) : Nat := (x % 2 ^ 64).toNat

/-- `max_size()` of a `std::vector` of 4-byte elements in libstdc++:
`PTRDIFF_MAX / 4`. -/
def max_size : Nat := (2 ^ 63 - 1) / 4

theorem max_size_eq : max_size = 2305843009213693951 := rfl

/-- `v.resize(n)`: the first `n` elements, then value-initialized (zero)
ones up to `n`; `std::length_error` beyond `max_size()`. -/
def resize (v : List WordIndex) (n : Nat) : Option (List WordIndex) :=
  if n > max_size then none else some (v.take n ++ List.replicate (n - v.length) 0)

/-- `v[i] = x`, undefined past the end. -/
def assign {α : Type} (v : List α) (i : Nat) (x : α) : Option (List α) :=
  if i < v.length then some (v.set i x) else none

/-- `MapVocab`: KenLM's index of a word at cdec's id of the word. -/
structure MapVocab where
  out_ : List WordIndex
deriving DecidableEq

/-- `MapVocab::Add` (lines 31-35).  `none` where C++ leaves the behaviour
undefined (`cdec_id + 1` past `INT_MAX`, a store past the end) or `resize`
throws. -/
def MapVocab.Add (Convert : String → WordID) (vocab : MapVocab) (index : WordIndex)
    (str : String) : Option MapVocab := do
  let cdec_id := Convert str
  let out ← if sizeT cdec_id ≥ vocab.out_.length then
      if cdec_id + 1 > INT_MAX then none else resize vocab.out_ (sizeT (cdec_id + 1))
    else some vocab.out_
  return ⟨← assign out (sizeT cdec_id) index⟩

/-- `MapVocab::FromCDec` (lines 38-40); `none` on an empty `out_`. -/
def MapVocab.FromCDec (vocab : MapVocab) (id : WordID) : Option WordIndex :=
  vocab.out_[if vocab.out_.length > sizeT id then sizeT id else 0]?

/-- KenLM's `EnumerateVocab` while the model loads: `Add` once per word, on
the empty `MapVocab` the constructor builds. -/
def MapVocab.enumerate (Convert : String → WordID) (words : List (WordIndex × String)) :
    Option MapVocab :=
  words.foldlM (fun vocab w => vocab.Add Convert w.1 w.2) ⟨[]⟩

/-- The map the `Add`s are meant to build: the index of the last word added
whose string is interned as `id`, and `0`, KenLM's `<unk>`, when there is
none. -/
def lastIndex (Convert : String → WordID) (words : List (WordIndex × String)) (id : WordID) :
    WordIndex :=
  ((words.filter fun w => Convert w.2 = id).getLast?.map Prod.fst).getD 0

section Spec

variable {Convert : String → WordID} {words : List (WordIndex × String)} {id : WordID}

@[simp] theorem lastIndex_nil : lastIndex Convert [] id = 0 := rfl

theorem lastIndex_append (w : WordIndex × String) :
    lastIndex Convert (words ++ [w]) id = if Convert w.2 = id then w.1 else lastIndex Convert words id := by
  by_cases h : Convert w.2 = id <;> simp [lastIndex, List.filter_append, h]

theorem lastIndex_of_forall_ne (h : ∀ w ∈ words, Convert w.2 ≠ id) : lastIndex Convert words id = 0 := by
  rw [lastIndex, List.filter_eq_nil_iff.mpr fun w hw => by simpa using h w hw]
  rfl

theorem sizeT_of_lt {x : Int} (h0 : 0 ≤ x) (h : x < 2 ^ 64) : sizeT x = x.toNat := by
  rw [sizeT, Int.emod_eq_of_lt h0 h]

/-- A positive `int` converts to `size_t` as itself. -/
theorem sizeT_of_pos {x : WordID} (h0 : 0 < x) (h : x ≤ INT_MAX) : sizeT x = x.toNat := by
  rw [INT_MAX_eq] at h
  unfold WordID at h0 h
  exact sizeT_of_lt (by omega) (by omega)

/-- `out_` after the words of `words`: every id added lies inside it, and it
holds at each position the index of the last word added with that id. -/
def Holds (Convert : String → WordID) (words : List (WordIndex × String)) (vocab : MapVocab) :
    Prop :=
  (∀ w ∈ words, ∃ k < vocab.out_.length, Convert w.2 = k) ∧
  ∀ k (h : k < vocab.out_.length), vocab.out_[k] = lastIndex Convert words k

theorem holds_init : Holds Convert [] ⟨[]⟩ := ⟨by simp, by simp⟩

/-- Once a word has been added, `out_` is not empty. -/
theorem out_ne_nil_of_holds {vocab : MapVocab} (hv : Holds Convert words vocab) (hne : words ≠ []) :
    vocab.out_ ≠ [] := by
  obtain ⟨w, hw⟩ := List.exists_mem_of_ne_nil _ hne
  obtain ⟨k, hk, -⟩ := hv.1 w hw
  exact List.ne_nil_of_length_pos (by omega)

/-- No word was added with an id beyond `out_`. -/
theorem lastIndex_of_holds_ge {vocab : MapVocab} (hv : Holds Convert words vocab) {k : Nat}
    (hk : vocab.out_.length ≤ k) : lastIndex Convert words k = 0 :=
  lastIndex_of_forall_ne fun w hw heq => by
    obtain ⟨k', hk', hkw⟩ := hv.1 w hw
    rw [hkw] at heq
    have : k' = k := by exact_mod_cast heq
    omega

/-- An `Add` of a positive id short of `INT_MAX` stores the index at the id,
after zeros up to it when the id lies beyond the vector. -/
theorem add_eq {vocab : MapVocab} {index : WordIndex} {str : String} (h1 : 1 ≤ Convert str)
    (h2 : Convert str < INT_MAX) :
    vocab.Add Convert index str = some ⟨(vocab.out_ ++ List.replicate ((Convert str).toNat + 1 -
      vocab.out_.length) 0).set (Convert str).toNat index⟩ := by
  have hs := sizeT_of_pos h1 h2.le
  rw [INT_MAX_eq] at h2
  unfold WordID at h1 h2
  have hs1 : sizeT (Convert str + 1) = (Convert str).toNat + 1 :=
    (sizeT_of_lt (by omega) (by omega)).trans (by omega)
  have hm : ¬ (Convert str).toNat + 1 > max_size := by rw [max_size_eq]; omega
  have hn : ¬ Convert str + 1 > INT_MAX := by unfold WordID; rw [INT_MAX_eq]; omega
  by_cases hl : (Convert str).toNat ≥ vocab.out_.length <;>
    simp (disch := omega) only [MapVocab.Add, hs, hl, hn, hs1, resize, hm, if_true, if_false, assign,
      Option.bind_eq_bind, Option.some_bind, List.take_of_length_le, List.length_append,
      List.length_replicate, Nat.sub_eq_zero_of_le, List.replicate_zero, List.append_nil] <;>
    rw [if_pos (by omega)] <;> rfl

/-- One `Add` keeps `Holds`. -/
theorem add_spec {vocab : MapVocab} (index : WordIndex) {str : String}
    (hv : Holds Convert words vocab) (h1 : 1 ≤ Convert str) (h2 : Convert str < INT_MAX) :
    ∃ vocab', vocab.Add Convert index str = some vocab' ∧
      Holds Convert (words ++ [(index, str)]) vocab' := by
  have hc : Convert str = ((Convert str).toNat : Int) := by
    unfold WordID at h1 ⊢
    omega
  refine ⟨_, add_eq h1 h2, fun w hw => ?_, fun k hk => ?_⟩
  · dsimp only
    simp only [List.length_set, List.length_append, List.length_replicate]
    rcases List.mem_append.mp hw with hw | hw
    · obtain ⟨k, hk, hkw⟩ := hv.1 w hw
      exact ⟨k, by omega, hkw⟩
    · rw [List.mem_singleton.mp hw]
      exact ⟨(Convert str).toNat, by omega, hc⟩
  · simp only [List.length_set, List.length_append, List.length_replicate] at hk
    dsimp only
    rw [lastIndex_append, List.getElem_set]
    by_cases hn : (Convert str).toNat = k
    · rw [if_pos hn, if_pos (by rw [hc, hn])]
    · rw [if_neg hn, if_neg (by rw [hc]; exact_mod_cast hn), List.getElem_append]
      split
      · exact hv.2 k ‹_›
      · rw [List.getElem_replicate, lastIndex_of_holds_ge hv (by omega)]

/-- A run of `Add`s of positive ids short of `INT_MAX` completes and keeps
`Holds`. -/
theorem enumerate_holds : ∀ (adds pre : List (WordIndex × String)) (vocab : MapVocab),
    Holds Convert pre vocab → (∀ w ∈ adds, 1 ≤ Convert w.2 ∧ Convert w.2 < INT_MAX) →
    ∃ vocab', adds.foldlM (fun v w => v.Add Convert w.1 w.2) vocab = some vocab' ∧
      Holds Convert (pre ++ adds) vocab'
  | [], pre, vocab, hv, _ => ⟨vocab, rfl, by rwa [List.append_nil]⟩
  | w :: adds, pre, vocab, hv, hid => by
    obtain ⟨v₁, h₁, hv₁⟩ := add_spec w.1 hv (hid w (.head _)).1 (hid w (.head _)).2
    obtain ⟨v₂, h₂, hv₂⟩ := enumerate_holds adds (pre ++ [w]) v₁ hv₁ fun w' h => hid w' (.tail _ h)
    refine ⟨v₂, ?_, by rwa [List.append_assoc, List.singleton_append] at hv₂⟩
    rw [List.foldlM_cons, h₁]
    exact h₂

/-- `FromCDec` reads the map `Holds` describes: at a positive `int` inside
`out_`, the index stored there; beyond it, position `0`, where no word is
stored since every id added is positive. -/
theorem fromCDec_of_holds {vocab : MapVocab} (hv : Holds Convert words vocab)
    (hne : vocab.out_ ≠ []) (hpos : ∀ w ∈ words, 1 ≤ Convert w.2) (h0 : 0 < id) (hmax : id ≤ INT_MAX) :
    vocab.FromCDec id = some (lastIndex Convert words id) := by
  have hid : id = (id.toNat : Int) := by unfold WordID at h0 ⊢; omega
  rw [MapVocab.FromCDec, sizeT_of_pos h0 hmax]
  split
  · rw [List.getElem?_eq_getElem ‹_›, hv.2 _ ‹_›, ← hid]
  · have hl := List.length_pos.mpr hne
    rw [List.getElem?_eq_getElem hl, hv.2 0 hl,
      lastIndex_of_forall_ne fun w hw heq => by simpa [heq] using hpos w hw, hid,
      lastIndex_of_holds_ge hv (show vocab.out_.length ≤ id.toNat by omega)]

end Spec

/-- After a non-empty run of `Add`s whose ids are positive `int`s short of
`INT_MAX`, `FromCDec` of any positive `int` is the index of the last word
added with that id, and `0` when there is none, inside the vector or beyond
it. -/
theorem fromCDec_last_add (Convert : String → WordID) (words : List (WordIndex × String))
    (hne : words ≠ []) (hid : ∀ w ∈ words, 1 ≤ Convert w.2 ∧ Convert w.2 < INT_MAX) :
    ∃ vocab, MapVocab.enumerate Convert words = some vocab ∧
      ∀ id, 0 < id → id ≤ INT_MAX → vocab.FromCDec id = some (lastIndex Convert words id) := by
  obtain ⟨vocab, h, hv⟩ := enumerate_holds words [] ⟨[]⟩ holds_init hid
  rw [List.nil_append] at hv
  exact ⟨vocab, h, fun id h0 hmax =>
    fromCDec_of_holds hv (out_ne_nil_of_holds hv hne) (fun w hw => (hid w hw).1) h0 hmax⟩

/-- Three words, two of them interned as `2` and the last of those at index
`8`: `FromCDec 2` is `8`, and `FromCDec 9`, beyond the vector, is `0`. -/
theorem fromCDec_last_add_three_words :
    ∃ vocab, MapVocab.enumerate (fun s => if s = "a" then 2 else 5) [(7, "a"), (9, "b"), (8, "a")]
        = some vocab ∧ vocab.FromCDec 2 = some 8 ∧ vocab.FromCDec 9 = some 0 := by
  obtain ⟨vocab, h, hf⟩ := fromCDec_last_add (fun s => if s = "a" then 2 else 5)
    [(7, "a"), (9, "b"), (8, "a")] (by decide) (by decide)
  exact ⟨vocab, h, by rw [hf 2 (by decide) (by decide)]; rfl, by rw [hf 9 (by decide) (by decide)]; rfl⟩

/-- A word whose id is `INT_MAX` overflows `cdec_id + 1`: the run stops. -/
theorem add_int_max_overflows :
    MapVocab.enumerate (fun _ => INT_MAX) [(1, "w")] = none := by
  decide

/-! ## The vocabulary the decoder reads -/

/-- A `MapVocab` once KenLM has loaded: `Add` has been called, so `out_` is
not empty, as `FromCDec` assumes ("Assumes Add has been called"). -/
structure LoadedVocab where
  vocab : MapVocab
  loaded : vocab.out_ ≠ []

/-- `FromCDec` on a loaded vocabulary, where it is always defined. -/
def LoadedVocab.FromCDec (v : LoadedVocab) (id : WordID) : WordIndex :=
  if h : v.vocab.out_.length > sizeT id then v.vocab.out_[sizeT id]
  else v.vocab.out_.get ⟨0, List.length_pos.mpr v.loaded⟩

end Cdec.Decoder
