/-
Citadel.Lsm.ShmTrackingTheorems — when the tracking of shared memory is
exact.

`ShmPool.Exact` is the purpose of the tracking: one node for each key, found
by the search, listing the pids admitted for the key, each once, in the
order of their first admission.

The sign of a 32-bit subtraction orders keys only as long as they lie on
one half of the circle of 2^32 keys (`Coherent`). Then every run is exact,
whatever the rbtree does to the shape of the tree (`ShmPool.Tracks` is the
invariant, with the distance from the base of the half circle as sort
key). Without it, SOME rebalancing puts a key where the search does not
go: the in-order sequence of the tree would have to climb in the
comparison, and a sequence that does lies on one half circle.
-/
import Citadel.Lsm.HexCodec
import Citadel.Lsm.ShmTracking
import Citadel.Lsm.TicketQueues

namespace Citadel

open SearchTree Bytes

/-! ## Runs -/

/-- A call of `add_to_shmid`, with the rebalancing it meets. -/
structure ShmAdd where
  rb : Rebalance Nat
  key : Key
  pid : Pid

def ShmPool.add (m : ShmPool) (a : ShmAdd) : ShmPool := (addToShmid m a.rb .ok a.key a.pid).1

def shmRun (m : ShmPool) (adds : List ShmAdd) : ShmPool := adds.foldl ShmPool.add m

/-- The pids admitted for a key, each once in first-admission order. -/
def admitted (key : Key) (calls : List (Key × Pid)) : List Pid :=
  ((calls.filter (fun c => c.1 = key)).map Prod.snd).eraseDups

/-- What the caller asked for. -/
def ShmAdd.call (a : ShmAdd) : Key × Pid := (a.key, a.pid)

theorem eraseDups_concat {α : Type} [DecidableEq α] (l : List α) (x : α) :
    (l ++ [x]).eraseDups = if x ∈ l then l.eraseDups else l.eraseDups ++ [x] := by
  rw [List.eraseDups_append]
  by_cases hmem : x ∈ l
  · rw [if_pos hmem, List.removeAll, List.filter_cons_of_neg (by simpa using hmem)]
    simp
  · rw [if_neg hmem, List.removeAll, List.filter_cons_of_pos (by simpa using hmem)]
    simp [List.eraseDups_cons]

theorem admitted_concat (key : Key) (calls : List (Key × Pid)) (c : Key × Pid) :
    admitted key (calls ++ [c]) =
      if c.1 = key ∧ c.2 ∉ admitted key calls then admitted key calls ++ [c.2]
      else admitted key calls := by
  unfold admitted
  rw [List.filter_append, List.map_append]
  by_cases hkey : c.1 = key
  · have hone : ([c].filter (fun c => c.1 = key)).map Prod.snd = [c.2] := by simp [hkey]
    rw [hone, eraseDups_concat]
    by_cases hmem : c.2 ∈ (calls.filter (fun c => c.1 = key)).map Prod.snd
    · rw [if_pos hmem, if_neg (fun h => h.2 (List.mem_eraseDups.mpr hmem))]
    · rw [if_neg hmem, if_pos ⟨hkey, fun h => hmem (List.mem_eraseDups.mp h)⟩]
  · have hnone : ([c].filter (fun c => c.1 = key)).map Prod.snd = [] := by simp [hkey]
    rw [hnone, List.append_nil, if_neg (fun h => hkey h.1)]

theorem admitted_of_not_mem {key : Key} {calls : List (Key × Pid)}
    (h : key ∉ calls.map Prod.fst) : admitted key calls = [] := by
  have hnone : calls.filter (fun c => c.1 = key) = [] := by
    rw [List.filter_eq_nil_iff]
    intro c hc heq
    exact h (List.mem_map.mpr ⟨c, hc, by simpa using heq⟩)
  rw [admitted, hnone]
  rfl

/-! ## One call -/

/-- The keys of the tree, in its order. -/
def ShmPool.shmids (m : ShmPool) : List Key := (inorder m.tree).map (fun n => (m.node n).shmid)

/-- A node that has just been allocated for `key`, in the tree `t`. -/
def ShmPool.addNode (m : ShmPool) (key : Key) (t : BinaryTree Nat) : ShmPool :=
  ⟨t, Function.update m.node m.fresh ⟨key, []⟩, m.fresh + 1⟩

/-- Every node of the tree has been allocated. -/
def ShmPool.Born (m : ShmPool) : Prop := ∀ n ∈ inorder m.tree, n < m.fresh

theorem shmidSearch_sound {m : ShmPool} {key : Key} {n : Nat} (h : shmidSearch m key = some n) :
    n ∈ inorder m.tree ∧ (m.node n).shmid = key := by
  obtain ⟨hmem, heq⟩ := search_sound h
  exact ⟨hmem, (comparePid_eq heq).symm⟩

@[simp] theorem enroll_tree (m : ShmPool) (n : Nat) (pid : Pid) : (m.enroll n pid).tree = m.tree := by
  unfold ShmPool.enroll
  split <;> rfl

@[simp] theorem enroll_fresh (m : ShmPool) (n : Nat) (pid : Pid) :
    (m.enroll n pid).fresh = m.fresh := by
  unfold ShmPool.enroll
  split <;> rfl

@[simp] theorem enroll_shmid (m : ShmPool) (n k : Nat) (pid : Pid) :
    ((m.enroll n pid).node k).shmid = (m.node k).shmid := by
  unfold ShmPool.enroll ShmPool.setNode
  split
  · rfl
  · by_cases hk : k = n
    · subst hk; simp
    · simp [hk]

theorem enroll_pids (m : ShmPool) (n : Nat) (pid : Pid) :
    ((m.enroll n pid).node n).pids =
      if pid ∉ (m.node n).pids then (m.node n).pids ++ [pid] else (m.node n).pids := by
  unfold ShmPool.enroll ShmPool.setNode
  by_cases hmem : pid ∈ (m.node n).pids <;> simp [hmem]

theorem enroll_pids_of_ne (m : ShmPool) {n k : Nat} (pid : Pid) (hk : k ≠ n) :
    ((m.enroll n pid).node k).pids = (m.node k).pids := by
  unfold ShmPool.enroll ShmPool.setNode
  split <;> simp [hk]

theorem addNode_shmNode_fresh (m : ShmPool) (key : Key) (t : BinaryTree Nat) :
    (m.addNode key t).node m.fresh = ⟨key, []⟩ := Function.update_self _ _ _

theorem addNode_shmNode_of_lt (m : ShmPool) (key : Key) (t : BinaryTree Nat) {n : Nat}
    (h : n < m.fresh) : (m.addNode key t).node n = m.node n :=
  Function.update_of_ne (by omega) _ _

/-- A node with this key is found, or one is put into the tree. -/
theorem shmNodeFor_cases {m : ShmPool} (hborn : m.Born) (rb : Rebalance Nat) (key : Key) :
    (∃ n, shmidSearch m key = some n ∧ shmNodeFor m rb .ok key = (m, some n)) ∨
    ∃ t, shmidSearch m key = none ∧
      link (fun k => compareKey key (m.node k).shmid) m.fresh m.tree = some t ∧
      shmNodeFor m rb .ok key = (m.addNode key (rb.tree t), some m.fresh) := by
  unfold shmNodeFor
  cases hs : shmidSearch m key with
  | some n => exact .inl ⟨n, rfl, rfl⟩
  | none =>
    obtain ⟨t, ht⟩ := link_of_search_none (x := m.fresh) hs
    refine .inr ⟨t, rfl, ht, ?_⟩
    have hlink : link (fun k => compareKey ((m.addNode key m.tree).node m.fresh).shmid
        ((m.addNode key m.tree).node k).shmid) m.fresh m.tree = some t := by
      rw [← ht, addNode_shmNode_fresh]
      refine link_congr fun k hk => ?_
      rw [addNode_shmNode_of_lt m key _ (hborn k hk)]
    have hins : insertShmid (m.addNode key m.tree) rb m.fresh =
        (m.addNode key (rb.tree t), false) := by
      unfold insertShmid
      rw [show (m.addNode key m.tree).tree = m.tree from rfl, hlink]
      rfl
    simp only [ShmAllocs.ok, if_true]
    rw [show ({ m.setNode m.fresh ⟨key, []⟩ with fresh := m.fresh + 1 } : ShmPool) =
      m.addNode key m.tree from rfl, hins]

/-- What one call does to the pool. -/
theorem add_cases {m : ShmPool} (hborn : m.Born) (a : ShmAdd) :
    (∃ n, shmidSearch m a.key = some n ∧ m.add a = m.enroll n a.pid) ∨
    ∃ t, shmidSearch m a.key = none ∧
      link (fun k => compareKey a.key (m.node k).shmid) m.fresh m.tree = some t ∧
      m.add a = (m.addNode a.key (a.rb.tree t)).enroll m.fresh a.pid := by
  have henroll : ∀ m' n, shmNodeFor m a.rb .ok a.key = (m', some n) →
      m.add a = m'.enroll n a.pid := by
    intro m' n hnode
    rw [ShmPool.add, addToShmid, hnode, ShmPool.enroll]
    by_cases hmem : a.pid ∈ (m'.node n).pids
    · simp only [if_pos hmem]
    · simp only [if_neg hmem, ShmAllocs.ok, if_true]
  rcases shmNodeFor_cases hborn a.rb a.key with ⟨n, hs, hnode⟩ | ⟨t, hs, ht, hnode⟩
  · exact .inl ⟨n, hs, henroll _ _ hnode⟩
  · exact .inr ⟨t, hs, ht, henroll _ _ hnode⟩

/-! ## What every run keeps -/

@[simp] theorem enroll_shmids (m : ShmPool) (n : Nat) (pid : Pid) :
    (m.enroll n pid).shmids = m.shmids := by
  simp [ShmPool.shmids]

@[simp] theorem enroll_search (m : ShmPool) (n : Nat) (pid : Pid) (key : Key) :
    shmidSearch (m.enroll n pid) key = shmidSearch m key := by
  simp [shmidSearch]

theorem enroll_born {m : ShmPool} (hborn : m.Born) (n : Nat) (pid : Pid) :
    (m.enroll n pid).Born := by
  simpa [ShmPool.Born] using hborn

/-- The new node takes some place among the old ones. -/
theorem addNode_inorder {m : ShmPool} {key : Key} {t : BinaryTree Nat} (rb : Rebalance Nat)
    (ht : link (fun k => compareKey key (m.node k).shmid) m.fresh m.tree = some t) :
    ∃ l r, inorder m.tree = l ++ r ∧
      inorder (m.addNode key (rb.tree t)).tree = l ++ m.fresh :: r := by
  obtain ⟨l, r, hold, hnew⟩ := link_inorder ht
  exact ⟨l, r, hold, (rb.inorder_tree t).trans hnew⟩

theorem addNode_born {m : ShmPool} (hborn : m.Born) {key : Key} {t : BinaryTree Nat}
    (rb : Rebalance Nat)
    (ht : link (fun k => compareKey key (m.node k).shmid) m.fresh m.tree = some t) :
    (m.addNode key (rb.tree t)).Born := by
  obtain ⟨l, r, hold, hnew⟩ := addNode_inorder rb ht
  intro n hn
  rw [hnew, List.mem_append, List.mem_cons] at hn
  have hlt : ∀ k ∈ l ++ r, k < m.fresh := fun k hk => hborn k (hold ▸ hk)
  change n < m.fresh + 1
  rcases hn with hl | rfl | hr
  · exact Nat.lt_succ_of_lt (hlt n (List.mem_append_left r hl))
  · exact Nat.lt_succ_self _
  · exact Nat.lt_succ_of_lt (hlt n (List.mem_append_right l hr))

theorem addNode_shmids {m : ShmPool} (hborn : m.Born) {key : Key} {t : BinaryTree Nat}
    (rb : Rebalance Nat)
    (ht : link (fun k => compareKey key (m.node k).shmid) m.fresh m.tree = some t) :
    ∃ l r, m.shmids = l ++ r ∧ (m.addNode key (rb.tree t)).shmids = l ++ key :: r := by
  obtain ⟨l, r, hold, hnew⟩ := addNode_inorder rb ht
  have hsame : ∀ k ∈ l ++ r, ((m.addNode key (rb.tree t)).node k).shmid = (m.node k).shmid := by
    intro k hk
    rw [addNode_shmNode_of_lt m key _ (hborn k (hold ▸ hk))]
  refine ⟨l.map (fun n => (m.node n).shmid), r.map (fun n => (m.node n).shmid), ?_, ?_⟩
  · rw [ShmPool.shmids, hold, List.map_append]
  · rw [ShmPool.shmids, hnew, List.map_append, List.map_cons, addNode_shmNode_fresh]
    rw [List.map_congr_left fun k hk => hsame k (List.mem_append_left r hk),
      List.map_congr_left fun k hk => hsame k (List.mem_append_right l hk)]

/-- The tree holds the keys that were added, in some order and maybe more
than once. -/
structure ShmPool.Holds (m : ShmPool) (keys : List Key) : Prop where
  born : m.Born
  mem : ∀ key, key ∈ m.shmids ↔ key ∈ keys

theorem ShmPool.Holds.addNode {m : ShmPool} {keys : List Key} (hm : m.Holds keys) {key : Key}
    {t : BinaryTree Nat} (rb : Rebalance Nat)
    (ht : link (fun k => compareKey key (m.node k).shmid) m.fresh m.tree = some t) :
    (m.addNode key (rb.tree t)).Holds (keys ++ [key]) := by
  refine ⟨addNode_born hm.born rb ht, fun k => ?_⟩
  obtain ⟨l, r, hold, hnew⟩ := addNode_shmids hm.born rb ht
  have hk := hm.mem k
  rw [hold, List.mem_append] at hk
  rw [hnew, List.mem_append, List.mem_cons, List.mem_append, List.mem_singleton, ← hk]
  tauto

theorem ShmPool.Holds.enroll {m : ShmPool} {keys : List Key} (hm : m.Holds keys) (n : Nat) (pid : Pid) :
    (m.enroll n pid).Holds keys :=
  ⟨enroll_born hm.born n pid, fun key => by rw [enroll_shmids]; exact hm.mem key⟩

theorem ShmPool.Holds.add {m : ShmPool} {keys : List Key} (hm : m.Holds keys) (a : ShmAdd) :
    (m.add a).Holds (keys ++ [a.key]) := by
  rcases add_cases hm.born a with ⟨n, hs, hadd⟩ | ⟨t, -, ht, hadd⟩
  · rw [hadd]
    obtain ⟨hmem, hkey⟩ := shmidSearch_sound hs
    have hold : a.key ∈ keys := (hm.mem a.key).mp (List.mem_map.mpr ⟨n, hmem, hkey⟩)
    refine ⟨(hm.enroll n a.pid).born, fun key => ?_⟩
    rw [(hm.enroll n a.pid).mem key, List.mem_append, List.mem_singleton]
    exact ⟨.inl, fun h => h.elim id (fun h => h ▸ hold)⟩
  · rw [hadd]
    exact (hm.addNode a.rb ht).enroll _ _

theorem shmRun_holds {m : ShmPool} {keys : List Key} (hm : m.Holds keys) (adds : List ShmAdd) :
    (shmRun m adds).Holds (keys ++ adds.map ShmAdd.key) := by
  induction adds generalizing m keys with
  | nil => simpa [shmRun] using hm
  | cons a adds ih =>
    have := ih (hm.add a)
    rwa [List.append_assoc] at this

theorem empty_holds : ShmPool.empty.Holds [] :=
  ⟨by intro n hn; simp [ShmPool.empty, inorder] at hn,
    by intro key; simp [ShmPool.shmids, ShmPool.empty, inorder]⟩

/-! ## Keys on one half circle -/

/-- No key lies below some base, as the subtraction sees it. -/
def Coherent (keys : List Key) : Prop := ∃ base : Key, ∀ key ∈ keys, 0 ≤ (key - base).toInt

/-- Above a common base the comparison is that of the distances. -/
theorem compareKey_above {base a b : Key} (ha : 0 ≤ (a - base).toInt)
    (hb : 0 ≤ (b - base).toInt) :
    compareKey a b = compare (a - base).toInt (b - base).toInt := by
  have hdiff : (a - base) - (b - base) = a - b := by bv_omega
  have hcmp : compareKey a b = comparePid (a - base) (b - base) := by
    simp only [compareKey, comparePid, hdiff]
  rw [hcmp, comparePid_nonneg ha hb]

theorem compareKey_gt {a b : Key} (h : compareKey b a = .gt) : 0 ≤ (b - a).toInt := by
  by_contra hneg
  have hlt : (b - a).slt 0 = true := BitVec.slt_iff_toInt_lt.mpr (not_le.mp hneg)
  simp only [compareKey, comparePid, hlt, if_true] at h
  cases h

/-- A sequence of keys that climbs lies above its first. -/
theorem coherent_of_climbs {keys : List Key}
    (h : keys.Pairwise (fun a b => compareKey b a = .gt)) : Coherent keys := by
  cases keys with
  | nil => exact ⟨0, by simp⟩
  | cons base keys =>
    refine ⟨base, fun key hkey => ?_⟩
    rcases List.mem_cons.mp hkey with rfl | hmem
    · simp
    · exact compareKey_gt (List.rel_of_pairwise_cons h hmem)

/-- The invariant of a run above `base`: the tree holds `keys`, sorted by
their distance, and each node lists the admissions of its key. -/
structure ShmPool.Tracks (base : Key) (m : ShmPool) (keys : List Key)
    (calls : List (Key × Pid)) : Prop extends m.Holds keys where
  sorted : Sorted (fun n => ((m.node n).shmid - base).toInt) m.tree
  pids : ∀ n ∈ inorder m.tree, (m.node n).pids = admitted (m.node n).shmid calls

section Above

variable {base : Key} {m : ShmPool} {keys : List Key} {calls : List (Key × Pid)}

theorem ShmPool.Holds.shmid_mem (hm : m.Holds keys) {n : Nat} (hn : n ∈ inorder m.tree) :
    (m.node n).shmid ∈ keys := (hm.mem _).mp (List.mem_map.mpr ⟨n, hn, rfl⟩)

theorem ShmPool.Holds.search_none (hm : m.Holds keys) {key : Key} (hnew : key ∉ keys) :
    shmidSearch m key = none := by
  cases hs : shmidSearch m key with
  | none => rfl
  | some n =>
    obtain ⟨hn, hshmid⟩ := shmidSearch_sound hs
    exact absurd (hshmid ▸ hm.shmid_mem hn) hnew

theorem ShmPool.Holds.compares (hm : m.Holds keys) (habove : ∀ key ∈ keys, 0 ≤ (key - base).toInt)
    {key : Key} (hkey : 0 ≤ (key - base).toInt) :
    Compares (fun n => ((m.node n).shmid - base).toInt)
      (fun n => compareKey key (m.node n).shmid) (key - base).toInt m.tree :=
  fun _ hn => compareKey_above hkey (habove _ (hm.shmid_mem hn))

theorem ShmPool.Tracks.addNode (hm : m.Tracks base keys calls)
    (habove : ∀ key ∈ keys, 0 ≤ (key - base).toInt) {key : Key}
    (hkey : 0 ≤ (key - base).toInt) (hnew : key ∉ calls.map Prod.fst) {t : BinaryTree Nat}
    (rb : Rebalance Nat)
    (ht : link (fun k => compareKey key (m.node k).shmid) m.fresh m.tree = some t) :
    (m.addNode key (rb.tree t)).Tracks base (keys ++ [key]) calls := by
  have hold : ∀ n ∈ inorder m.tree, (m.addNode key (rb.tree t)).node n = m.node n :=
    fun n hn => addNode_shmNode_of_lt m key _ (hm.born n hn)
  refine ⟨hm.toHolds.addNode rb ht, ?_, ?_⟩
  · have hsorted : Sorted (fun n => (((m.addNode key (rb.tree t)).node n).shmid - base).toInt)
        m.tree := hm.sorted.congr fun n hn => by rw [hold n hn]
    refine Sorted.rebalance (link_sorted hsorted ?_ ht) rb
    intro n hn
    simp only [addNode_shmNode_fresh, hold n hn]
    exact hm.compares habove hkey n hn
  · intro n hn
    obtain ⟨l, r, hin, hout⟩ := addNode_inorder rb ht
    rw [hout, List.mem_append, List.mem_cons] at hn
    have hmem : n ∈ inorder m.tree ∨ n = m.fresh := by
      rw [hin, List.mem_append]
      tauto
    rcases hmem with hmem | rfl
    · rw [hold n hmem]
      exact hm.pids n hmem
    · rw [addNode_shmNode_fresh, admitted_of_not_mem hnew]

theorem ShmPool.Tracks.enroll (hm : m.Tracks base keys calls) {n : Nat} (hn : n ∈ inorder m.tree)
    (pid : Pid) : (m.enroll n pid).Tracks base keys (calls ++ [((m.node n).shmid, pid)]) := by
  refine ⟨hm.toHolds.enroll n pid, ?_, ?_⟩
  · rw [enroll_tree]
    exact hm.sorted.congr fun k _ => by rw [enroll_shmid]
  · intro k hk
    rw [enroll_tree] at hk
    rw [enroll_shmid, admitted_concat, ← hm.pids k hk]
    by_cases hkn : k = n
    · subst hkn
      rw [enroll_pids]
      simp
    · have hshmid : (m.node n).shmid ≠ (m.node k).shmid := by
        intro heq
        exact hkn (hm.sorted.eq_of_key hk hn (by simp only [heq]))
      rw [enroll_pids_of_ne m pid hkn, if_neg (fun h => hshmid h.1)]

/-- Above the base the node of an added key is found. -/
theorem ShmPool.Tracks.search (hm : m.Tracks base keys calls)
    (habove : ∀ key ∈ keys, 0 ≤ (key - base).toInt) {key : Key} (hkey : key ∈ keys) :
    ∃ n ∈ inorder m.tree, shmidSearch m key = some n ∧ (m.node n).shmid = key := by
  obtain ⟨n, hn, hshmid⟩ := List.mem_map.mp ((hm.mem key).mpr hkey)
  refine ⟨n, hn, search_complete hm.sorted ?_ hn, hshmid⟩
  simp only [hshmid]
  exact hm.compares habove (habove key hkey)

/-- One call. -/
theorem ShmPool.Tracks.add (hm : m.Tracks base (calls.map Prod.fst) calls) (a : ShmAdd)
    (habove : ∀ c ∈ calls ++ [a.call], 0 ≤ (c.1 - base).toInt) :
    (m.add a).Tracks base ((calls ++ [a.call]).map Prod.fst) (calls ++ [a.call]) := by
  have hkeys : ∀ key ∈ calls.map Prod.fst, 0 ≤ (key - base).toInt := by
    intro key hkey
    obtain ⟨c, hc, rfl⟩ := List.mem_map.mp hkey
    exact habove c (List.mem_append_left _ hc)
  have hkey : 0 ≤ (a.key - base).toInt :=
    habove a.call (List.mem_append_right _ (List.mem_singleton.mpr rfl))
  have hmap : (calls ++ [a.call]).map Prod.fst = calls.map Prod.fst ++ [a.key] := by
    rw [List.map_append]; rfl
  rw [hmap]
  rcases add_cases hm.born a with ⟨n, hs, hadd⟩ | ⟨t, hs, ht, hadd⟩
  · obtain ⟨hn, hshmid⟩ := shmidSearch_sound hs
    have henroll := hm.enroll hn a.pid
    rw [hshmid, ← hadd] at henroll
    exact ⟨hm.toHolds.add a, henroll.sorted, henroll.pids⟩
  · -- were the key old, its node would have been found
    have hnew : a.key ∉ calls.map Prod.fst := by
      intro hmem
      obtain ⟨n, -, hfound, -⟩ := hm.search hkeys hmem
      rw [hs] at hfound
      cases hfound
    have hnode := hm.addNode hkeys hkey hnew a.rb ht
    have hfresh : m.fresh ∈ inorder (m.addNode a.key (a.rb.tree t)).tree := by
      obtain ⟨l, r, -, hout⟩ := addNode_inorder a.rb ht
      rw [hout]
      simp
    have henroll := hnode.enroll hfresh a.pid
    rw [addNode_shmNode_fresh, ← hadd] at henroll
    exact henroll

end Above

/-- A whole run above the base. -/
theorem shmRun_tracks {base : Key} {m : ShmPool} {calls : List (Key × Pid)}
    (hm : m.Tracks base (calls.map Prod.fst) calls) {adds : List ShmAdd}
    (habove : ∀ c ∈ calls ++ adds.map ShmAdd.call, 0 ≤ (c.1 - base).toInt) :
    (shmRun m adds).Tracks base ((calls ++ adds.map ShmAdd.call).map Prod.fst)
      (calls ++ adds.map ShmAdd.call) := by
  induction adds generalizing m calls with
  | nil => simpa [shmRun] using hm
  | cons a adds ih =>
    rw [List.map_cons, List.append_cons] at habove ⊢
    refine ih (hm.add a fun c hc => habove c (List.mem_append_left _ hc)) habove

theorem empty_tracks (base : Key) : ShmPool.empty.Tracks base [] [] :=
  ⟨empty_holds, List.Pairwise.nil, by simp [ShmPool.empty, inorder]⟩

/-! ## The purpose of the tracking -/

/-- The hexadecimal form of a key, as user space asks for it. -/
def keystring (key : Key) : List UInt8 := hexDigits (le32 key).1

/-- What `get_shmid_inhabitants` is to say of a list of pids. -/
def inhabitantsSize (pids : List Pid) : Int := 2 * pids.length * 4 + 1

structure ShmPool.Exact (m : ShmPool) (calls : List (Key × Pid)) : Prop where
  one_node : m.shmids.Nodup
  keys : ∀ key, key ∈ m.shmids ↔ key ∈ calls.map Prod.fst
  found : ∀ key ∈ calls.map Prod.fst,
    ∃ n ∈ inorder m.tree, shmidSearch m key = some n ∧ (m.node n).shmid = key
  inhabitants : ∀ key ∈ calls.map Prod.fst,
    getShmidInhabitants m (keystring key) true .ok =
      some (inhabitantsSize (admitted key calls),
        some (hexDigits (pidBytes (admitted key calls)) ++ [0]))
  size : ∀ key ∈ calls.map Prod.fst,
    getShmidInhabitants m (keystring key) false .ok =
      some (inhabitantsSize (admitted key calls), none)
  uninhabited : ∀ key ∉ calls.map Prod.fst, ∀ alloc,
    getShmidInhabitants m (keystring key) alloc .ok = some (0, none)

theorem keystring_length (key : Key) : ¬ (keystring key).length ≠ 2 * 4 := by
  rw [keystring, length_hexDigits, (le32 key).2]
  simp

theorem read_keystring (key : Key) : read (le32 key).1 0 4 = some (le32 key) := by
  have := read_front (le32 key) []
  rwa [List.append_nil] at this

/-- Where the key is not found there is nothing to say, -/
theorem getShmidInhabitants_none {m : ShmPool} {key : Key} (hs : shmidSearch m key = none)
    (alloc : Bool) : getShmidInhabitants m (keystring key) alloc .ok = some (0, none) := by
  rw [getShmidInhabitants, if_neg (keystring_length key)]
  simp only [keystring, InhabitantsAllocs.ok, if_true, hexstringToBytes_hexDigits,
    read_keystring, Option.bind_eq_bind, Option.bind_some, ofLe32_le32, hs]

/-- and where it is found, the pids of its node. -/
theorem getShmidInhabitants_some {m : ShmPool} {key : Key} {n : Nat}
    (hs : shmidSearch m key = some n) (hpos : 0 < (pidBytes (m.node n).pids).length)
    (alloc : Bool) :
    getShmidInhabitants m (keystring key) alloc .ok =
      some (inhabitantsSize (m.node n).pids,
        if alloc then some (hexDigits (pidBytes (m.node n).pids) ++ [0]) else none) := by
  rw [getShmidInhabitants, if_neg (keystring_length key)]
  simp only [keystring, InhabitantsAllocs.ok, if_true, hexstringToBytes_hexDigits,
    read_keystring, Option.bind_eq_bind, Option.bind_some, ofLe32_le32, hs, toHexstring_eq hpos]
  cases alloc <;> rfl

theorem pidBytes_length (pids : List Pid) : (pidBytes pids).length = 4 * pids.length := by
  induction pids with
  | nil => rfl
  | cons p pids ih =>
    rw [pidBytes, List.flatMap_cons, List.length_append, (le32 p).2]
    change 4 + (pidBytes pids).length = _
    rw [ih, List.length_cons]
    omega

theorem admitted_length_pos {key : Key} {calls : List (Key × Pid)}
    (h : key ∈ calls.map Prod.fst) : 0 < (admitted key calls).length := by
  obtain ⟨c, hc, hkey⟩ := List.mem_map.mp h
  have hmem : c.2 ∈ admitted key calls := by
    rw [admitted, List.mem_eraseDups, List.mem_map]
    exact ⟨c, List.mem_filter.mpr ⟨hc, by simpa using hkey⟩, rfl⟩
  exact List.length_pos_of_mem hmem

/-- The invariant is exactness. -/
theorem ShmPool.Tracks.exact {base : Key} {m : ShmPool} {calls : List (Key × Pid)}
    (hm : m.Tracks base (calls.map Prod.fst) calls)
    (habove : ∀ key ∈ calls.map Prod.fst, 0 ≤ (key - base).toInt) : m.Exact calls := by
  have hquery : ∀ key ∈ calls.map Prod.fst, ∀ alloc,
      getShmidInhabitants m (keystring key) alloc .ok =
        some (inhabitantsSize (admitted key calls),
          if alloc then some (hexDigits (pidBytes (admitted key calls)) ++ [0]) else none) := by
    intro key hkey alloc
    obtain ⟨n, hn, hs, hshmid⟩ := hm.search habove hkey
    have hpids : (m.node n).pids = admitted key calls := by rw [hm.pids n hn, hshmid]
    have hpos : 0 < (pidBytes (m.node n).pids).length := by
      rw [pidBytes_length, hpids]
      exact Nat.mul_pos (by decide) (admitted_length_pos hkey)
    rw [getShmidInhabitants_some hs hpos, hpids]
  refine ⟨?_, hm.mem, fun key hkey => hm.search habove hkey, fun key hkey => hquery key hkey true,
    fun key hkey => hquery key hkey false, ?_⟩
  · refine List.Nodup.of_map (fun key => (key - base).toInt) ?_
    rw [ShmPool.shmids, List.map_map]
    exact hm.sorted.nodup_keys
  · intro key hkey alloc
    exact getShmidInhabitants_none (hm.toHolds.search_none hkey) alloc

/-! ## Without the half circle -/

theorem Coherent.of_subset {keys keys' : List Key} (h : Coherent keys)
    (hsub : ∀ key ∈ keys', key ∈ keys) : Coherent keys' := by
  obtain ⟨base, hbase⟩ := h
  exact ⟨base, fun key hkey => hbase key (hsub key hkey)⟩

theorem shmRun_concat (m : ShmPool) (adds : List ShmAdd) (a : ShmAdd) :
    shmRun m (adds ++ [a]) = (shmRun m adds).add a := by
  simp [shmRun]

/-- What exactness asks of the tree alone. -/
def ShmPool.Finds (m : ShmPool) (keys : List Key) : Prop :=
  m.shmids.Nodup ∧ ∀ key ∈ keys, ∃ n, shmidSearch m key = some n

/-- An old key that is found leaves the tree as it was; one that is not
found is put there a second time. -/
theorem finds_before_old {m : ShmPool} {keys : List Key} (hm : m.Holds keys) {a : ShmAdd}
    (hold : a.key ∈ keys) (hf : (m.add a).Finds (keys ++ [a.key])) : m.Finds keys := by
  obtain ⟨hnodup, hfind⟩ := hf
  rcases add_cases hm.born a with ⟨n, -, hadd⟩ | ⟨t, -, ht, hadd⟩
  · rw [hadd, enroll_shmids] at hnodup
    refine ⟨hnodup, fun key hkey => ?_⟩
    obtain ⟨k, hk⟩ := hfind key (List.mem_append_left _ hkey)
    rw [hadd, enroll_search] at hk
    exact ⟨k, hk⟩
  · obtain ⟨l, r, hbefore, hafter⟩ := addNode_shmids hm.born a.rb ht
    rw [hadd, enroll_shmids, hafter, List.nodup_middle, List.nodup_cons, ← hbefore] at hnodup
    exact absurd ((hm.mem a.key).mpr hold) hnodup.1

/-- A new key that is found, with all the others, in whatever shape its
insertion leaves the tree: the tree climbs. -/
theorem coherent_of_finds_new {m : ShmPool} {keys : List Key} (hm : m.Holds keys) {key : Key}
    {pid : Pid} (hnew : key ∉ keys)
    (hf : ∀ rb, (m.add ⟨rb, key, pid⟩).Finds (keys ++ [key])) : Coherent (keys ++ [key]) := by
  have hs := hm.search_none hnew
  obtain ⟨t, ht⟩ := link_of_search_none (x := m.fresh) hs
  have hadd : ∀ rb, m.add ⟨rb, key, pid⟩ = (m.addNode key (rb.tree t)).enroll m.fresh pid := by
    intro rb
    rcases add_cases hm.born ⟨rb, key, pid⟩ with ⟨n, hfound, -⟩ | ⟨t', -, ht', hadd⟩
    · rw [hs] at hfound
      cases hfound
    · rw [ht, Option.some.injEq] at ht'
      rw [hadd, ht']
  -- the nodes are the same for every shape
  set shmid : Nat → Key := fun n => ((m.addNode key t).node n).shmid with hshmid
  have hheld : ∀ rb : Rebalance Nat, (m.addNode key (rb.tree t)).Holds (keys ++ [key]) :=
    fun rb => hm.addNode rb ht
  have hkeys : ∀ k, k ∈ (inorder t).map shmid ↔ k ∈ keys ++ [key] := (hheld .none).mem
  have hnodup : ((inorder t).map shmid).Nodup := by
    have := (hf .none).1
    rwa [hadd, enroll_shmids] at this
  have hclimbs : (inorder t).Pairwise (fun a b => compareKey (shmid b) (shmid a) = .gt) := by
    refine pairwise_of_search (List.Nodup.of_map shmid hnodup) fun rb b hb => ?_
    obtain ⟨n, hn⟩ := (hf rb).2 (shmid b) ((hkeys _).mp (List.mem_map.mpr ⟨b, hb, rfl⟩))
    rw [hadd, enroll_search] at hn
    obtain ⟨hmem, heq⟩ := shmidSearch_sound hn
    have hmem' : n ∈ inorder t := by
      rwa [show (m.addNode key (rb.tree t)).tree = rb.tree t from rfl, rb.inorder_tree] at hmem
    obtain rfl : n = b := List.inj_on_of_nodup_map hnodup hmem' hb heq
    exact hn
  refine (coherent_of_climbs (List.pairwise_map.mpr hclimbs)).of_subset fun k hk => ?_
  exact (hkeys k).mpr hk

theorem coherent_of_finds {calls : List (Key × Pid)}
    (hf : ∀ adds : List ShmAdd, adds.map ShmAdd.call = calls →
      (shmRun .empty adds).Finds (calls.map Prod.fst)) : Coherent (calls.map Prod.fst) := by
  induction calls using List.reverseRecOn with
  | nil => exact ⟨0, by simp⟩
  | append_singleton calls c ih =>
    have hkeys : (calls ++ [c]).map Prod.fst = calls.map Prod.fst ++ [c.1] := by
      rw [List.map_append]; rfl
    rw [hkeys] at hf ⊢
    have hheld : ∀ adds : List ShmAdd, adds.map ShmAdd.call = calls →
        (shmRun .empty adds).Holds (calls.map Prod.fst) := by
      intro adds hadds
      have := shmRun_holds empty_holds adds
      rwa [List.nil_append, show adds.map ShmAdd.key = (adds.map ShmAdd.call).map Prod.fst by
        rw [List.map_map]; rfl, hadds] at this
    have hlast : ∀ adds : List ShmAdd, adds.map ShmAdd.call = calls → ∀ rb,
        ((shmRun .empty adds).add ⟨rb, c.1, c.2⟩).Finds (calls.map Prod.fst ++ [c.1]) := by
      intro adds hadds rb
      rw [← shmRun_concat]
      refine hf _ ?_
      rw [List.map_append, hadds]
      rfl
    by_cases hold : c.1 ∈ calls.map Prod.fst
    · refine (ih fun adds hadds => ?_).of_subset fun key hkey => ?_
      · exact finds_before_old (hheld adds hadds) hold (hlast adds hadds .none)
      · rcases List.mem_append.mp hkey with hkey | hkey
        · exact hkey
        · exact List.mem_singleton.mp hkey ▸ hold
    · have hadds : (calls.map (fun c => (⟨.none, c.1, c.2⟩ : ShmAdd))).map ShmAdd.call = calls := by
        rw [List.map_map]
        exact List.map_id' calls
      exact coherent_of_finds_new (hheld _ hadds) hold (hlast _ hadds)

/-- **The tracking is exact, in every shape the tree may take, if and only
if the keys lie on one half circle.** -/
theorem shm_tracking_exact_iff (calls : List (Key × Pid)) :
    (∀ adds : List ShmAdd, adds.map ShmAdd.call = calls → (shmRun .empty adds).Exact calls) ↔
      Coherent (calls.map Prod.fst) := by
  constructor
  · intro hexact
    refine coherent_of_finds fun adds hadds => ?_
    have hm := hexact adds hadds
    refine ⟨hm.one_node, fun key hkey => ?_⟩
    obtain ⟨n, -, hn, -⟩ := hm.found key hkey
    exact ⟨n, hn⟩
  · rintro ⟨base, hbase⟩ adds rfl
    have habove : ∀ c ∈ [] ++ adds.map ShmAdd.call, 0 ≤ (c.1 - base).toInt :=
      fun c hc => hbase c.1 (List.mem_map.mpr ⟨c, hc, rfl⟩)
    have htracks := shmRun_tracks (show ShmPool.empty.Tracks base ([].map Prod.fst) [] from
      empty_tracks base) habove
    exact htracks.exact hbase

/-- Three keys a third of the circle apart; the last insertion turns the
tree so that 0x60000000 is at its root. -/
def spreadKeys : List ShmAdd :=
  [⟨.none, 0x00000000, 5⟩, ⟨.none, 0x60000000, 6⟩, ⟨.rootAt 2, 0xC0000000, 7⟩]

/-- Pid 7 has been admitted for the third key, whose node is in the tree,
but the search does not find it and the query says that nobody has; a
second admission makes a second node. -/
theorem spreadKeys_lost :
    let m := shmRun .empty spreadKeys
    0xC0000000 ∈ m.shmids ∧ shmidSearch m 0xC0000000 = none ∧
      getShmidInhabitants m (keystring 0xC0000000) true .ok = some (0, none) ∧
      (m.add ⟨.none, 0xC0000000, 8⟩).shmids.count 0xC0000000 = 2 := by
  decide +kernel

end Citadel
