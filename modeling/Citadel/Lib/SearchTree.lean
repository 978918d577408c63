/-
Citadel.Lib.SearchTree — search and insertion in a binary tree that
somebody else rebalances.

The tree is only ever compared through `dir : α → Ordering`, which says
on which side of an element the key looked for lies (`.lt` is the left).
`search` descends by it, `link` descends by it and hangs a new element
under the leaf it reaches. A `Rebalance` is any rearrangement of the tree
that keeps its in-order sequence; that is all that is assumed of it.

Two kinds of facts. Those that hold for ANY `dir`: a search returns an
element of the tree that compares equal, and a failed search makes the
insertion succeed. Those that need the tree sorted by a key and `dir` to
be the comparison with it: the search finds the element, whatever the
shape of the tree, and the insertion keeps it sorted.

The order is also NECESSARY (`pairwise_of_search`): if every element is
found in every shape the tree may take, its in-order sequence climbs in
the comparison, since any element may come to stand at the root.
-/
import Mathlib.Data.Tree.Basic
import Mathlib.Order.Compare
import Mathlib.Order.Lattice
import Mathlib.Data.List.Nodup

namespace SearchTree

variable {α : Type}

/-- The in-order sequence. -/
def inorder : BinaryTree α → List α
  | .nil => []
  | .node a l r => inorder l ++ a :: inorder r

/-- Descend to an element that compares equal. -/
def search (dir : α → Ordering) : BinaryTree α → Option α
  | .nil => none
  | .node a l r =>
    match dir a with
    | .lt => search dir l
    | .gt => search dir r
    | .eq => some a

/-- Descend to a leaf and hang `x` there; `none` when an element compares
equal on the way. -/
def link (dir : α → Ordering) (x : α) : BinaryTree α → Option (BinaryTree α)
  | .nil => some (.node x .nil .nil)
  | .node a l r =>
    match dir a with
    | .lt => (link dir x l).map (fun l' => .node a l' r)
    | .gt => (link dir x r).map (fun r' => .node a l r')
    | .eq => none

/-- A rearrangement that keeps the in-order sequence. -/
structure Rebalance (α : Type) where
  tree : BinaryTree α → BinaryTree α
  inorder_tree : ∀ t, inorder (tree t) = inorder t

/-- The rearrangement that does nothing. -/
def Rebalance.none : Rebalance α := ⟨id, fun _ => rfl⟩

/-! ## Facts about every comparison -/

theorem search_sound {dir : α → Ordering} {a : α} : ∀ {t : BinaryTree α},
    search dir t = some a → a ∈ inorder t ∧ dir a = .eq
  | .nil, h => by simp [search] at h
  | .node b l r, h => by
      simp only [search] at h
      split at h
      · obtain ⟨hm, he⟩ := search_sound h
        exact ⟨by simp [inorder, hm], he⟩
      · obtain ⟨hm, he⟩ := search_sound h
        exact ⟨by simp [inorder, hm], he⟩
      · rename_i hb
        obtain rfl : b = a := by simpa using h
        exact ⟨by simp [inorder], hb⟩

/-- Only the comparisons with elements of the tree matter to a search, -/
theorem search_congr {dir dir' : α → Ordering} : ∀ {t : BinaryTree α},
    (∀ a ∈ inorder t, dir a = dir' a) → search dir t = search dir' t
  | .nil, _ => rfl
  | .node b l r, h => by
      have hb := h b (by simp [inorder])
      have hl := search_congr (t := l) (fun a ha => h a (by simp [inorder, ha]))
      have hr := search_congr (t := r) (fun a ha => h a (by simp [inorder, ha]))
      simp only [search, hb, hl, hr]

/-- and to an insertion. -/
theorem link_congr {dir dir' : α → Ordering} {x : α} : ∀ {t : BinaryTree α},
    (∀ a ∈ inorder t, dir a = dir' a) → link dir x t = link dir' x t
  | .nil, _ => rfl
  | .node b l r, h => by
      have hb := h b (by simp [inorder])
      have hl := link_congr (x := x) (t := l) (fun a ha => h a (by simp [inorder, ha]))
      have hr := link_congr (x := x) (t := r) (fun a ha => h a (by simp [inorder, ha]))
      simp only [link, hb, hl, hr]

/-- The insertion takes the path the search took. -/
theorem link_of_search_none {dir : α → Ordering} {x : α} : ∀ {t : BinaryTree α},
    search dir t = none → ∃ t', link dir x t = some t'
  | .nil, _ => ⟨_, rfl⟩
  | .node b l r, h => by
      simp only [search] at h
      simp only [link]
      split at h
      · obtain ⟨l', hl⟩ := link_of_search_none (x := x) h
        exact ⟨.node b l' r, by simp [hl]⟩
      · obtain ⟨r', hr⟩ := link_of_search_none (x := x) h
        exact ⟨.node b l r', by simp [hr]⟩
      · simp at h

/-- The new element stands somewhere in the old sequence. -/
theorem link_inorder {dir : α → Ordering} {x : α} : ∀ {t t' : BinaryTree α},
    link dir x t = some t' → ∃ l r, inorder t = l ++ r ∧ inorder t' = l ++ x :: r
  | .nil, t', h => by
      obtain rfl : BinaryTree.node x .nil .nil = t' := by simpa [link] using h
      exact ⟨[], [], rfl, rfl⟩
  | .node b l r, t', h => by
      simp only [link] at h
      split at h
      · obtain ⟨l', hl, rfl⟩ := Option.map_eq_some_iff.mp h
        obtain ⟨l1, l2, h1, h2⟩ := link_inorder hl
        exact ⟨l1, l2 ++ b :: inorder r, by simp [inorder, h1], by simp [inorder, h2]⟩
      · obtain ⟨r', hr, rfl⟩ := Option.map_eq_some_iff.mp h
        obtain ⟨r1, r2, h1, h2⟩ := link_inorder hr
        exact ⟨inorder l ++ b :: r1, r2, by simp [inorder, h1], by simp [inorder, h2]⟩
      · simp at h

/-! ## Any element may stand at the root -/

/-- The tree that is a path to the right. -/
def spine : List α → BinaryTree α
  | [] => .nil
  | a :: l => .node a .nil (spine l)

theorem inorder_spine (l : List α) : inorder (spine l) = l := by
  induction l with
  | nil => rfl
  | cons a l ih => simp [spine, inorder, ih]

/-- Put the element at position `i` of the sequence at the root. -/
def rootAt (i : Nat) (t : BinaryTree α) : BinaryTree α :=
  match (inorder t).drop i with
  | [] => t
  | a :: r => .node a (spine ((inorder t).take i)) (spine r)

theorem inorder_rootAt (i : Nat) (t : BinaryTree α) : inorder (rootAt i t) = inorder t := by
  unfold rootAt
  split
  · rfl
  · rename_i a r hdrop
    rw [inorder, inorder_spine, inorder_spine, ← hdrop, List.take_append_drop]

def Rebalance.rootAt (i : Nat) : Rebalance α := ⟨SearchTree.rootAt i, inorder_rootAt i⟩

/-- If every element is found in every shape of the tree, then each
compares as greater with all that stand before it. -/
theorem pairwise_of_search {dir : α → α → Ordering} {t : BinaryTree α} (hnd : (inorder t).Nodup)
    (hfind : ∀ rb : Rebalance α, ∀ b ∈ inorder t, search (dir b) (rb.tree t) = some b) :
    (inorder t).Pairwise (fun a b => dir b a = .gt) := by
  rw [List.pairwise_iff_getElem]
  intro i j hi hj hij
  have hsplit : (inorder t).drop i = (inorder t)[i] :: (inorder t).drop (i + 1) :=
    List.drop_eq_getElem_cons hi
  have hb := hfind (.rootAt i) (inorder t)[j] (List.getElem_mem hj)
  simp only [Rebalance.rootAt, rootAt, hsplit, search] at hb
  split at hb
  · -- to the left only the elements before position `i` are ever seen
    have hmem := (search_sound hb).1
    rw [inorder_spine, List.mem_take_iff_getElem] at hmem
    obtain ⟨k, hk, heq⟩ := hmem
    have := (hnd.getElem_inj_iff).mp heq
    omega
  · assumption
  · rw [Option.some.injEq, hnd.getElem_inj_iff] at hb
    omega

/-! ## Facts about a sorted tree -/

section Sorted

variable {κ : Type} [LinearOrder κ] (key : α → κ)

/-- The in-order sequence climbs in the key. -/
def Sorted (t : BinaryTree α) : Prop := (inorder t).Pairwise (fun a b => key a < key b)

/-- On the elements of `t`, `dir` is the comparison with `k`. -/
def Compares (dir : α → Ordering) (k : κ) (t : BinaryTree α) : Prop :=
  ∀ a ∈ inorder t, dir a = compare k (key a)

variable {key}

theorem Sorted.left {a : α} {l r : BinaryTree α} (h : Sorted key (.node a l r)) :
    Sorted key l := (List.pairwise_append.mp h).1

theorem Sorted.right {a : α} {l r : BinaryTree α} (h : Sorted key (.node a l r)) :
    Sorted key r := (List.pairwise_cons.mp (List.pairwise_append.mp h).2.1).2

theorem Sorted.left_lt {a b : α} {l r : BinaryTree α} (h : Sorted key (.node a l r))
    (hb : b ∈ inorder l) : key b < key a :=
  (List.pairwise_append.mp h).2.2 b hb a (by simp)

theorem Sorted.lt_right {a b : α} {l r : BinaryTree α} (h : Sorted key (.node a l r))
    (hb : b ∈ inorder r) : key a < key b :=
  (List.pairwise_cons.mp (List.pairwise_append.mp h).2.1).1 b hb

/-- Only the keys of the elements matter. -/
theorem Sorted.congr {key' : α → κ} {t : BinaryTree α} (hs : Sorted key t)
    (h : ∀ a ∈ inorder t, key a = key' a) : Sorted key' t := by
  refine List.Pairwise.imp_of_mem ?_ hs
  intro a b ha hb hlt
  rwa [h a ha, h b hb] at hlt

theorem Sorted.nodup_keys {t : BinaryTree α} (hs : Sorted key t) : ((inorder t).map key).Nodup :=
  List.pairwise_map.mpr (List.Pairwise.imp (fun h => ne_of_lt h) hs)

theorem Sorted.eq_of_key {t : BinaryTree α} (hs : Sorted key t) {a b : α} (ha : a ∈ inorder t)
    (hb : b ∈ inorder t) (h : key a = key b) : a = b :=
  List.inj_on_of_nodup_map hs.nodup_keys ha hb h

theorem Sorted.rebalance {t : BinaryTree α} (hs : Sorted key t) (rb : Rebalance α) :
    Sorted key (rb.tree t) := by
  rwa [Sorted, rb.inorder_tree]

theorem Compares.left {dir : α → Ordering} {k : κ} {a : α} {l r : BinaryTree α}
    (h : Compares key dir k (.node a l r)) : Compares key dir k l :=
  fun b hb => h b (by simp [inorder, hb])

theorem Compares.right {dir : α → Ordering} {k : κ} {a : α} {l r : BinaryTree α}
    (h : Compares key dir k (.node a l r)) : Compares key dir k r :=
  fun b hb => h b (by simp [inorder, hb])

/-- In a sorted tree of any shape, the search finds the element. -/
theorem search_complete {dir : α → Ordering} {a : α} : ∀ {t : BinaryTree α},
    Sorted key t → Compares key dir (key a) t → a ∈ inorder t → search dir t = some a
  | .nil, _, _, hm => by simp [inorder] at hm
  | .node b l r, hs, hc, hm => by
      have hb : dir b = compare (key a) (key b) := hc b (by simp [inorder])
      simp only [inorder, List.mem_append, List.mem_cons] at hm
      simp only [search, hb]
      rcases hm with hl | rfl | hr
      · rw [compare_lt_iff_lt.mpr (hs.left_lt hl)]
        exact search_complete hs.left hc.left hl
      · rw [compare_eq_iff_eq.mpr rfl]
      · rw [compare_gt_iff_gt.mpr (hs.lt_right hr)]
        exact search_complete hs.right hc.right hr

/-- The insertion goes to its sorted place. -/
theorem link_place {dir : α → Ordering} {x : α} : ∀ {t t' : BinaryTree α},
    Sorted key t → Compares key dir (key x) t → link dir x t = some t' →
    ∃ l r, inorder t = l ++ r ∧ inorder t' = l ++ x :: r ∧
      (∀ a ∈ l, key a < key x) ∧ (∀ a ∈ r, key x < key a)
  | .nil, t', _, _, h => by
      obtain rfl : BinaryTree.node x .nil .nil = t' := by simpa [link] using h
      exact ⟨[], [], rfl, rfl, by simp, by simp⟩
  | .node b l r, t', hs, hc, h => by
      have hb : dir b = compare (key x) (key b) := hc b (by simp [inorder])
      simp only [link, hb] at h
      rcases lt_trichotomy (key x) (key b) with hlt | heq | hgt
      · rw [compare_lt_iff_lt.mpr hlt] at h
        obtain ⟨l', hl, rfl⟩ := Option.map_eq_some_iff.mp h
        obtain ⟨l1, l2, h1, h2, h3, h4⟩ := link_place hs.left hc.left hl
        refine ⟨l1, l2 ++ b :: inorder r, by simp [inorder, h1], by simp [inorder, h2], h3, ?_⟩
        intro a ha
        simp only [List.mem_append, List.mem_cons] at ha
        rcases ha with ha | rfl | ha
        · exact h4 a ha
        · exact hlt
        · exact hlt.trans (hs.lt_right ha)
      · rw [compare_eq_iff_eq.mpr heq] at h
        simp at h
      · rw [compare_gt_iff_gt.mpr hgt] at h
        obtain ⟨r', hr, rfl⟩ := Option.map_eq_some_iff.mp h
        obtain ⟨r1, r2, h1, h2, h3, h4⟩ := link_place hs.right hc.right hr
        refine ⟨inorder l ++ b :: r1, r2, by simp [inorder, h1], by simp [inorder, h2], ?_, h4⟩
        intro a ha
        simp only [List.mem_append, List.mem_cons] at ha
        rcases ha with ha | rfl | ha
        · exact (hs.left_lt ha).trans hgt
        · exact hgt
        · exact h3 a ha

theorem link_sorted {dir : α → Ordering} {x : α} {t t' : BinaryTree α} (hs : Sorted key t)
    (hc : Compares key dir (key x) t) (h : link dir x t = some t') : Sorted key t' := by
  obtain ⟨l, r, h1, h2, h3, h4⟩ := link_place hs hc h
  rw [Sorted, h1, List.pairwise_append] at hs
  rw [Sorted, h2, List.pairwise_append, List.pairwise_cons]
  refine ⟨hs.1, ⟨h4, hs.2.1⟩, ?_⟩
  intro a ha b hb
  rcases List.mem_cons.mp hb with rfl | hb
  · exact h3 a ha
  · exact (h3 a ha).trans (h4 b hb)

end Sorted

end SearchTree
