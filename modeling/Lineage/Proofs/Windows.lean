import Mathlib.Data.List.Basic
import Mathlib.Data.List.TakeWhile
import Mathlib.Order.Basic
import Lineage.Similarity.Profile

namespace Lineage

theorem lt_bisect_iff {test : Nat → Bool} (hdown : ∀ i j, i ≤ j → test j = true → test i = true)
    (base size : Nat) (hlow : ∀ i < base, test i = true)
    (hhigh : ∀ i, base + size ≤ i → test i = false) (i : Nat) :
    i < bisect test base size ↔ test i = true := by
  fun_induction bisect test base size with
  | case1 base size hsize htest =>
      constructor
      · intro hlt
        exact hdown i base (Nat.le_of_lt_succ hlt) htest
      · intro hi
        by_contra hle
        rw [hhigh i (by omega)] at hi
        cases hi
  | case2 base size hsize htest =>
      constructor
      · exact hlow i
      · intro hi
        by_contra hle
        exact htest (hdown base i (Nat.le_of_not_lt hle) hi)
  | case3 base size hsize ih =>
      by_cases hmiddle : test (base + size / 2) = true
      · rw [dif_pos hmiddle] at ih
        rw [if_pos hmiddle]
        refine ih ?_ ?_
        · intro j hj
          exact hdown j _ (Nat.le_of_lt hj) hmiddle
        · intro j hj
          exact hhigh j (by omega)
      · rw [dif_neg hmiddle] at ih
        rw [if_neg hmiddle]
        refine ih hlow ?_
        intro j hj
        rw [Bool.eq_false_iff]
        intro htest
        exact hmiddle (hdown _ j (by omega) htest)

theorem drop_eq_filter {α : Type} {property : α → Bool} {items : List α} {count : Nat}
    (h : ∀ (i : Nat) (item : α), items[i]? = some item → (property item = true ↔ count ≤ i)) :
    items.drop count = items.filter property := by
  have hsplit := congrArg (List.filter property) (List.take_append_drop count items)
  have hfront : (items.take count).filter property = [] := by
    rw [List.filter_eq_nil_iff]
    intro item hitem hproperty
    obtain ⟨i, hlt, hi⟩ := List.mem_take_iff_getElem.mp hitem
    have hle := (h i item (List.getElem?_eq_some_iff.mpr ⟨by omega, hi⟩)).mp hproperty
    omega
  have hback : (items.drop count).filter property = items.drop count := by
    rw [List.filter_eq_self]
    intro item hitem
    obtain ⟨i, hi⟩ := List.mem_iff_getElem?.mp hitem
    rw [List.getElem?_drop] at hi
    exact (h _ item hi).mpr (Nat.le_add_right count i)
  rw [List.filter_append, hfront, hback, List.nil_append] at hsplit
  exact hsplit

theorem takeWhile_eq_filter {α : Type} {property : α → Bool} {items : List α}
    (h : items.Pairwise fun earlier later => property later = true → property earlier = true) :
    items.takeWhile property = items.filter property := by
  induction items with
  | nil => rfl
  | cons item rest ih =>
      obtain ⟨hitem, hrest⟩ := List.pairwise_cons.mp h
      by_cases hproperty : property item = true
      · rw [List.takeWhile_cons_of_pos hproperty, List.filter_cons_of_pos hproperty, ih hrest]
      · have hlater : rest.filter property = [] := by
          rw [List.filter_eq_nil_iff]
          intro later hmem hlater
          exact hproperty (hitem later hmem hlater)
        rw [List.takeWhile_cons_of_neg hproperty, List.filter_cons_of_neg hproperty, hlater]

theorem isPrefix_takeWhile_iff {α : Type} {property : α → Bool} {items run : List α} :
    run <+: items.takeWhile property ↔ run <+: items ∧ ∀ item ∈ run, property item = true := by
  constructor
  · intro h
    exact ⟨h.trans (List.takeWhile_prefix property),
      fun item hitem => List.mem_takeWhile_imp (h.subset hitem)⟩
  · rintro ⟨⟨rest, rfl⟩, hrun⟩
    rw [List.takeWhile_append_of_pos hrun]
    exact List.prefix_append _ _

namespace TokenIndex

/-- Starts and ends never decrease. -/
def Ordered (index : TokenIndex) : Prop :=
  index.tokens.toList.Pairwise fun earlier later =>
    earlier.start ≤ later.start ∧ earlier.stop ≤ later.stop

/-- Starts never decrease. -/
def StartsOrdered (index : TokenIndex) : Prop :=
  index.tokens.toList.Pairwise fun earlier later => earlier.start ≤ later.start

/-- Consecutive tokens from position `first` on, each with its position, that all end by `stop`. -/
def IsRun (index : TokenIndex) (first stop : Nat) (run : List (Token × Nat)) : Prop :=
  ∀ i token position, run[i]? = some (token, position) →
    position = first + i ∧ index.tokens[position]? = some token ∧ token.stop ≤ stop

structure IsLongestRun (index : TokenIndex) (first stop : Nat) (run : List (Token × Nat)) :
    Prop where
  isRun : index.IsRun first stop run
  length_le : ∀ other, index.IsRun first stop other → other.length ≤ run.length

variable {index : TokenIndex}

theorem Ordered.starts (h : index.Ordered) : index.StartsOrdered :=
  h.imp And.left

theorem lt_firstFrom_iff (h : index.StartsOrdered) (start i : Nat) :
    i < index.firstFrom start ↔ (index.tokens[i]?).any (·.start < start) = true := by
  refine lt_bisect_iff ?_ 0 index.size (fun j hj => absurd hj (Nat.not_lt_zero j)) ?_ i
  · intro i j hij hj
    obtain ⟨later, hlater, hlt⟩ := (Option.any_eq_true _ _).mp hj
    obtain ⟨hsize, rfl⟩ := Array.getElem?_eq_some_iff.mp hlater
    have hle : (index.tokens[i]).start ≤ (index.tokens[j]).start := by
      rcases Nat.lt_or_eq_of_le hij with hij | rfl
      · have hi : i < index.tokens.toList.length := by simpa using Nat.lt_trans hij hsize
        exact List.pairwise_iff_getElem.mp h i j hi (by simpa using hsize) hij
      · exact Nat.le_refl _
    rw [Array.getElem?_eq_getElem (by omega), Option.any_some, decide_eq_true_eq]
    exact Nat.lt_of_le_of_lt hle (of_decide_eq_true hlt)
  · intro i hi
    rw [Nat.zero_add] at hi
    rw [Array.getElem?_eq_none hi]
    rfl

theorem Ordered.within_eq (h : index.Ordered) (start stop : Nat) :
    index.within start stop = index.tokens.toList.zipIdx.filter fun (token, _) =>
      start ≤ token.start && token.stop ≤ stop := by
  have hdrop : index.tokens.toList.zipIdx.drop (index.firstFrom start) =
      index.tokens.toList.zipIdx.filter fun (token, _) => start ≤ token.start := by
    refine drop_eq_filter ?_
    rintro i ⟨token, number⟩ hi
    obtain ⟨htoken, -⟩ := by simpa using hi
    rw [decide_eq_true_eq, ← Nat.not_lt, ← Nat.not_lt, lt_firstFrom_iff h.starts, htoken]
    simp
  have hstops : (index.tokens.toList.zipIdx.filter fun (token, _) => start ≤ token.start).Pairwise
      fun earlier later => earlier.1.stop ≤ later.1.stop := by
    have hnumbered := h.imp And.right
    rw [← List.zipIdx_map_fst 0 index.tokens.toList, List.pairwise_map] at hnumbered
    exact hnumbered.filter _
  rw [within, hdrop, takeWhile_eq_filter, List.filter_filter]
  · congr 1
    funext numbered
    exact Bool.and_comm _ _
  · refine hstops.imp ?_
    intro earlier later hle hlater
    exact decide_eq_true (Nat.le_trans hle (of_decide_eq_true hlater))

theorem firstFrom_eq_findIdx (h : index.StartsOrdered) (start : Nat) :
    index.firstFrom start = index.tokens.toList.findIdx fun token => start ≤ token.start := by
  refine eq_of_forall_lt_iff ?_
  intro i
  rw [lt_firstFrom_iff h, List.lt_findIdx_iff]
  constructor
  · intro hi
    obtain ⟨token, htoken, hlt⟩ := (Option.any_eq_true _ _).mp hi
    obtain ⟨hsize, rfl⟩ := Array.getElem?_eq_some_iff.mp htoken
    refine ⟨by simpa using hsize, ?_⟩
    intro j hj
    have hearlier := (lt_firstFrom_iff h start j).mp
      (Nat.lt_of_le_of_lt hj ((lt_firstFrom_iff h start i).mpr hi))
    rw [Array.getElem?_eq_getElem (by omega), Option.any_some, decide_eq_true_eq] at hearlier
    exact decide_eq_false (Nat.not_le_of_lt hearlier)
  · rintro ⟨hi, hbefore⟩
    have hsize : i < index.tokens.size := by simpa using hi
    have hlt := Nat.lt_of_not_le (of_decide_eq_false (hbefore i (Nat.le_refl i)))
    rw [Array.getElem?_eq_getElem hsize, Option.any_some]
    exact decide_eq_true hlt

/-- The runs from a position are the beginnings of what a scan with an early stop finds there. -/
theorem isRun_iff {first stop : Nat} {run : List (Token × Nat)} :
    index.IsRun first stop run ↔
      run <+: (index.tokens.toList.zipIdx.drop first).takeWhile fun (token, _) =>
        token.stop ≤ stop := by
  rw [isPrefix_takeWhile_iff, List.prefix_iff_getElem?]
  constructor
  · intro h
    constructor
    · intro i hi
      obtain ⟨hposition, htoken, -⟩ := h i _ _ (List.getElem?_eq_getElem hi)
      rw [List.getElem?_drop, List.getElem?_zipIdx, Array.getElem?_toList, ← hposition, htoken]
      simp
    · rintro ⟨token, position⟩ hmem
      obtain ⟨i, hi⟩ := List.mem_iff_getElem?.mp hmem
      exact decide_eq_true (h i token position hi).2.2
  · rintro ⟨hfront, hstops⟩ i token position hi
    obtain ⟨hlt, hget⟩ := List.getElem?_eq_some_iff.mp hi
    have hnumbered := hfront i hlt
    rw [hget, List.getElem?_drop, List.getElem?_zipIdx, Array.getElem?_toList,
      Option.map_eq_some_iff] at hnumbered
    obtain ⟨found, hfound, heq⟩ := hnumbered
    obtain ⟨rfl, rfl⟩ := Prod.mk.inj heq
    rw [Nat.zero_add]
    exact ⟨rfl, hfound, of_decide_eq_true (hstops _ (List.mem_of_getElem? hi))⟩

theorem isLongestRun_iff {first stop : Nat} {run : List (Token × Nat)} :
    index.IsLongestRun first stop run ↔
      run = (index.tokens.toList.zipIdx.drop first).takeWhile fun (token, _) =>
        token.stop ≤ stop := by
  constructor
  · rintro ⟨hrun, hlongest⟩
    exact (isRun_iff.mp hrun).eq_of_length_le
      (hlongest _ (isRun_iff.mpr (List.prefix_refl _)))
  · rintro rfl
    exact ⟨isRun_iff.mpr (List.prefix_refl _),
      fun other hother => (isRun_iff.mp hother).length_le⟩

/-- When starts and ends are in order, a window has the tokens that lie in it, each with its
position. When only the starts are, it has the longest run of tokens that end by the end of the
window, from the first token on that starts at its start or later. -/
theorem windows_are_filters_and_longest_runs (index : TokenIndex) (start stop : Nat) :
    (index.Ordered →
      index.within start stop = index.tokens.toList.zipIdx.filter fun (token, _) =>
        start ≤ token.start && token.stop ≤ stop) ∧
    (index.StartsOrdered → ∀ run,
      index.IsLongestRun (index.tokens.toList.findIdx fun token => start ≤ token.start) stop run ↔
        run = index.within start stop) := by
  constructor
  · intro h
    exact h.within_eq start stop
  · intro h run
    rw [isLongestRun_iff, ← firstFrom_eq_findIdx h, within]

def separateTokens : TokenIndex :=
  { tokens := #[⟨0, 3⟩, ⟨4, 7⟩, ⟨8, 12⟩, ⟨13, 15⟩] }

/-- The starts are in order, but the third token ends after the fourth. -/
def nestedTokens : TokenIndex :=
  { tokens := #[⟨0, 9⟩, ⟨4, 6⟩, ⟨4, 12⟩, ⟨5, 6⟩] }

/-- A token that reaches out of the window hides the one after it, though that lies inside. -/
theorem long_token_ends_the_window :
    separateTokens.Ordered ∧
      separateTokens.within 4 12 = [(⟨4, 7⟩, 1), (⟨8, 12⟩, 2)] ∧
      nestedTokens.StartsOrdered ∧
      nestedTokens.within 4 6 = [(⟨4, 6⟩, 1)] := by
  have hordered : separateTokens.Ordered := by
    unfold Ordered
    decide
  have hstarts : nestedTokens.StartsOrdered := by
    unfold StartsOrdered
    decide
  have hfirst : nestedTokens.tokens.toList.findIdx (fun token => 4 ≤ token.start) = 1 := by
    decide
  have hlongest : nestedTokens.IsLongestRun 1 6 [(⟨4, 6⟩, 1)] := by
    constructor
    · intro i token position hi
      obtain ⟨rfl, rfl, rfl⟩ : i = 0 ∧ token = ⟨4, 6⟩ ∧ position = 1 := by
        simpa [List.getElem?_singleton, and_assoc, eq_comm] using hi
      decide
    · intro other hother
      by_contra hlong
      rw [Nat.not_le] at hlong
      obtain ⟨hposition, htoken, hstop⟩ := hother 1 _ _ (List.getElem?_eq_getElem hlong)
      rw [hposition] at htoken
      rw [← Option.some.inj htoken] at hstop
      exact absurd hstop (by decide)
  refine ⟨hordered, ?_, hstarts, ?_⟩
  · rw [(windows_are_filters_and_longest_runs separateTokens 4 12).1 hordered]
    decide
  · have hwindow := (windows_are_filters_and_longest_runs nestedTokens 4 6).2 hstarts
    rw [hfirst] at hwindow
    exact ((hwindow _).mp hlongest).symm

end TokenIndex

theorem Profile.spanTokens_eq {index : TokenIndex} (h : index.Ordered) (location : Location) :
    spanTokens index location = index.tokens.toList.filter fun token =>
      location.start ≤ token.start && token.stop ≤ location.stop := by
  rw [spanTokens, h.within_eq]
  conv_rhs => rw [← List.zipIdx_map_fst 0 index.tokens.toList, List.filter_map]
  rfl

end Lineage
