/-
The vector of `TimerKeeper` is a 4-ary min-heap after every operation.

Both sifts are read with the entry in hand already in the hole: then a
turn of the loop is a trade of two keys (Lib/Heap.lean).
-/
import AntRpc.Lib.Heap
import AntRpc.Timer.Proofs.Heap

namespace AntRpc.Timer

open Lib Lib.Heap

variable {α : Type} {expireAt : α → Int} {heap heap' : List α}
  {entry : α}

-- == keys

/-- The deadlines of a vector by index. -/
def keys (expireAt : α → Int) (heap : List α) (i : Nat) : Int :=
  heap[i]?.elim 0 expireAt

theorem keys_of_getElem {i : Nat} {x : α} (h : heap[i]? = some x) :
    keys expireAt heap i = expireAt x := by
  rw [keys, h]
  rfl

theorem keys_set {i : Nat} (hi : i < heap.length) (x : α) :
    keys expireAt (heap.set i x)
      = Function.update (keys expireAt heap) i (expireAt x) := by
  funext j
  unfold keys
  by_cases hj : j = i
  · subst hj
    rw [List.getElem?_set_self hi, Function.update_self]
    rfl
  · rw [List.getElem?_set_ne (Ne.symm hj), Function.update_of_ne hj]

/-- A turn of a sift: the hole moves from `i` to `j`. -/
theorem keys_trade {i j : Nat} {x : α} (hi : i < heap.length)
    (hne : j ≠ i) (hx : heap[j]? = some x) :
    keys expireAt ((heap.set i x).set j entry)
      = trade (keys expireAt (heap.set i entry)) i j := by
  obtain ⟨hj, -⟩ := List.getElem?_eq_some_iff.mp hx
  have hj' : j < (heap.set i x).length := by rwa [List.length_set]
  rw [trade, keys_set hj', keys_set hi, keys_set hi, Function.update_self,
    Function.update_of_ne hne, keys_of_getElem hx, Function.update_idem]

-- == sift_up

theorem siftUpLoop_ordered {fuel index : Nat}
    (h : siftUpLoop expireAt entry fuel heap index = some heap')
    (hr : Rising 4 heap.length (keys expireAt (heap.set index entry))
      index) :
    Ordered 4 heap'.length (keys expireAt heap') := by
  induction fuel generalizing heap index with
  | zero => cases h
  | succ fuel ih =>
      simp only [siftUpLoop] at h
      split at h
      · next hpos =>
        obtain ⟨above, habove, h⟩ := Option.bind_eq_some_iff.mp h
        have hne : (index - 1) / 4 ≠ index := by omega
        split at h
        · next hlt =>
          obtain ⟨moved, hmoved, h⟩ := Option.bind_eq_some_iff.mp h
          obtain ⟨hindex, rfl⟩ := write_eq_some.mp hmoved
          refine ih h ?_
          rw [keys_trade hindex hne habove, List.length_set]
          refine hr.lift hpos hindex ?_
          rw [keys_set hindex, Function.update_self,
            Function.update_of_ne (by exact hne)]
          rwa [parent, keys_of_getElem habove]
        · next hle =>
          obtain ⟨hindex, rfl⟩ := write_eq_some.mp h
          rw [List.length_set]
          refine hr.stop fun _ => ?_
          rw [keys_set hindex, Function.update_self,
            Function.update_of_ne (by exact hne)]
          rw [parent, keys_of_getElem habove]
          omega
      · next hzero =>
        obtain ⟨hindex, rfl⟩ := write_eq_some.mp h
        rw [List.length_set]
        exact hr.stop fun hpos => absurd hpos hzero

theorem pushHeap_ordered (h : pushHeap expireAt heap entry = some heap')
    (ho : Ordered 4 heap.length (keys expireAt heap)) :
    Ordered 4 heap'.length (keys expireAt heap') := by
  obtain ⟨last, hlast, h⟩ := Option.bind_eq_some_iff.mp h
  rw [List.getElem?_concat_length] at hlast
  cases hlast
  refine siftUpLoop_ordered h ?_
  rw [List.set_append_right _ _ (Nat.le_refl _), Nat.sub_self,
    List.length_append]
  refine Ordered.rising (ho.congr fun i hi => ?_)
  unfold keys
  rw [List.getElem?_append_left hi]

-- == sift_down

/-- The scan finds the earliest child. -/
theorem minChildLoop_least {k c m : Nat} {t : Int} {r : Nat × Int}
    (h : minChildLoop expireAt heap k c m t = some r)
    (hm : keys expireAt heap m = t) :
    keys expireAt heap r.1 = r.2 ∧ r.2 ≤ t
      ∧ ∀ j, c ≤ j → j < c + k → r.2 ≤ keys expireAt heap j := by
  induction k generalizing c m t with
  | zero =>
      cases h
      exact ⟨hm, le_refl t, fun j _ _ => by omega⟩
  | succ k ih =>
      simp only [minChildLoop] at h
      obtain ⟨child, hchild, h⟩ := Option.bind_eq_some_iff.mp h
      have hkey : keys expireAt heap c = expireAt child :=
        keys_of_getElem hchild
      split at h
      · next hlt =>
        obtain ⟨hr, hle, hleast⟩ := ih h hkey
        refine ⟨hr, hle.trans hlt.le, fun j hj hjk => ?_⟩
        by_cases hjc : j = c
        · rw [hjc, hkey]
          exact hle
        · exact hleast j (by omega) (by omega)
      · next hge =>
        obtain ⟨hr, hle, hleast⟩ := ih h hm
        refine ⟨hr, hle, fun j hj hjk => ?_⟩
        by_cases hjc : j = c
        · rw [hjc, hkey]
          omega
        · exact hleast j (by omega) (by omega)

theorem siftDownLoop_ordered {fuel index : Nat}
    (h : siftDownLoop expireAt entry fuel heap index = some heap')
    (hs : Sinking 4 heap.length (keys expireAt (heap.set index entry))
      index) :
    Ordered 4 heap'.length (keys expireAt heap') := by
  induction fuel generalizing heap index with
  | zero => cases h
  | succ fuel ih =>
      simp only [siftDownLoop] at h
      split at h
      · next hleaf =>
        obtain ⟨hindex, rfl⟩ := write_eq_some.mp h
        rw [List.length_set]
        refine hs.stop fun i hpos hi hparent => ?_
        unfold parent at hparent
        omega
      · next hfirst =>
        obtain ⟨first, hfirst', h⟩ := Option.bind_eq_some_iff.mp h
        obtain ⟨⟨child, time⟩, hscan, h⟩ := Option.bind_eq_some_iff.mp h
        have hrange : child = _ ∨ _ := minChildLoop_range hscan
        obtain ⟨htime, hle, hleast⟩ : keys expireAt heap child = time ∧ _ :=
          minChildLoop_least hscan (keys_of_getElem hfirst')
        -- the scan covers the children
        have hkids : ∀ i, 0 < i → i < heap.length → parent 4 i = index →
            i ≠ index ∧ time ≤ keys expireAt heap i := by
          intro i hpos hi hparent
          unfold parent at hparent
          refine ⟨by omega, ?_⟩
          by_cases hi1 : i = 4 * index + 1
          · rw [hi1, keys_of_getElem hfirst']
            exact hle
          · exact hleast i (by omega) (by omega)
        split at h
        · next hlt =>
          obtain ⟨below, hbelow, h⟩ := Option.bind_eq_some_iff.mp h
          obtain ⟨moved, hmoved, h⟩ := Option.bind_eq_some_iff.mp h
          obtain ⟨hindex, rfl⟩ := write_eq_some.mp hmoved
          obtain ⟨hchild, -⟩ := List.getElem?_eq_some_iff.mp hbelow
          have hne : child ≠ index := by omega
          refine ih h ?_
          rw [keys_trade hindex hne hbelow, List.length_set]
          refine hs.lower (by omega) (by unfold parent; omega) hchild
            (fun i hpos hi hparent => ?_) ?_
          · obtain ⟨hi', hle'⟩ := hkids i hpos hi hparent
            rw [keys_set hindex, Function.update_of_ne hne,
              Function.update_of_ne hi', htime]
            exact hle'
          · rw [keys_set hindex, Function.update_of_ne hne,
              Function.update_self, htime]
            exact hlt
        · next hge =>
          obtain ⟨hindex, rfl⟩ := write_eq_some.mp h
          rw [List.length_set]
          refine hs.stop fun i hpos hi hparent => ?_
          obtain ⟨hi', hle'⟩ := hkids i hpos hi hparent
          rw [keys_set hindex, Function.update_self,
            Function.update_of_ne hi']
          omega

theorem popHeap_ordered {top : α}
    (h : popHeap expireAt heap = some (top, heap'))
    (ho : Ordered 4 heap.length (keys expireAt heap)) :
    Ordered 4 heap'.length (keys expireAt heap') := by
  obtain ⟨top', -, h⟩ := Option.bind_eq_some_iff.mp h
  obtain ⟨back, -, h⟩ := Option.bind_eq_some_iff.mp h
  simp only at h
  split at h
  · cases h
    intro i _ hi
    cases hi
  · obtain ⟨moved, hmoved, h⟩ := Option.bind_eq_some_iff.mp h
    obtain ⟨rest, hsift, h⟩ := Option.bind_eq_some_iff.mp h
    cases h
    obtain ⟨hlt, rfl⟩ := write_eq_some.mp hmoved
    obtain ⟨first, hfirst, hsift⟩ := Option.bind_eq_some_iff.mp hsift
    rw [List.getElem?_set_self hlt] at hfirst
    cases hfirst
    refine siftDownLoop_ordered hsift ?_
    rw [List.set_set, List.length_set, keys_set hlt]
    refine Ordered.sinking ?_ _
    have hrest : Ordered 4 heap.dropLast.length (keys expireAt heap) :=
      ho.mono (by rw [List.length_dropLast]; omega)
    refine hrest.congr fun i hi => ?_
    unfold keys
    rw [List.getElem?_dropLast, if_pos]
    rwa [List.length_dropLast] at hi

-- == sequences

/-- What every sequence of operations leaves. -/
structure Heaped (expireAt : α → Int) (s : Pile α) : Prop where
  ordered : Ordered 4 s.heap.length (keys expireAt s.heap)
  kept : s.pushed.Perm (s.popped ++ s.heap)

theorem heaped_apply {op : HeapOp α} {s s' : Pile α}
    (h : Heaped expireAt s) (hs : Pile.apply expireAt op s = some s') :
    Heaped expireAt s' := by
  cases op with
  | push entry =>
      obtain ⟨heap, hpush, rfl⟩ := Option.map_eq_some_iff.mp hs
      refine ⟨pushHeap_ordered hpush h.ordered, ?_⟩
      calc entry :: s.pushed
          _ |>.Perm (entry :: (s.popped ++ s.heap)) := h.kept.cons entry
          _ |>.Perm (s.popped ++ entry :: s.heap) := List.perm_middle.symm
          _ |>.Perm (s.popped ++ heap) :=
            (pushHeap_perm hpush).symm.append_left _
  | pop =>
      obtain ⟨⟨top, heap⟩, hpop, rfl⟩ := Option.map_eq_some_iff.mp hs
      refine ⟨popHeap_ordered hpop h.ordered, ?_⟩
      calc s.pushed
          _ |>.Perm (s.popped ++ s.heap) := h.kept
          _ |>.Perm (s.popped ++ top :: heap) :=
            (popHeap_perm hpop).append_left _
          _ |>.Perm (top :: s.popped ++ heap) := List.perm_middle

theorem heaped_reachable {s : Pile α}
    (h : (pileMachine expireAt).Reachable s) : Heaped expireAt s :=
  h.invariant (I := Heaped expireAt)
    (by
      rintro s rfl
      exact ⟨fun i _ hi => absurd hi (Nat.not_lt_zero i), .refl _⟩)
    fun _ _ _ _ ih _ hs => heaped_apply ih hs

theorem siftUp_isSome {i : Nat} (hi : i < heap.length) :
    (siftUp expireAt heap i).isSome = true := by
  unfold siftUp
  rw [List.getElem?_eq_getElem hi]
  exact siftUpLoop_isSome hi (Nat.lt_succ_self i)

theorem siftDown_isSome {i : Nat} (hi : i < heap.length) :
    (siftDown expireAt heap i).isSome = true := by
  unfold siftDown
  rw [List.getElem?_eq_getElem hi]
  exact siftDownLoop_isSome hi (Nat.sub_le _ _)

/-- **The timers' vector is a min-heap and loses nothing.** After every
sequence of `push_heap_4ary` and `pop_heap_4ary` each entry is no earlier
than its parent, and the vector holds what was pushed and not popped. A
pop returns an entry with the earliest deadline. Pushing always returns,
popping and sifting do on a non-empty vector: no index is out of range
and no loop goes on for ever. -/
theorem heap_sequences (expireAt : α → Int) (s : Pile α)
    (hreach : (pileMachine expireAt).Reachable s) :
    (∀ i x p, 0 < i → s.heap[i]? = some x →
      s.heap[(i - 1) / 4]? = some p → expireAt p ≤ expireAt x)
    ∧ s.pushed.Perm (s.popped ++ s.heap)
    ∧ (∀ entry, ∃ s', Pile.apply expireAt (.push entry) s = some s')
    ∧ (s.heap ≠ [] → ∃ top heap', popHeap expireAt s.heap = some (top, heap')
      ∧ top ∈ s.heap ∧ ∀ x ∈ s.heap, expireAt top ≤ expireAt x)
    ∧ ∀ i < s.heap.length, (siftUp expireAt s.heap i).isSome = true
      ∧ (siftDown expireAt s.heap i).isSome = true := by
  obtain ⟨hordered, hkept⟩ := heaped_reachable hreach
  refine ⟨?_, hkept, ?_, ?_, fun i hi => ⟨siftUp_isSome hi,
    siftDown_isSome hi⟩⟩
  · intro i x p hpos hx hp
    obtain ⟨hi, -⟩ := List.getElem?_eq_some_iff.mp hx
    have hle := hordered i hpos hi
    rwa [keys_of_getElem hx, parent, keys_of_getElem hp] at hle
  · intro entry
    obtain ⟨heap, hpush⟩ := Option.isSome_iff_exists.mp
      (pushHeap_isSome : (pushHeap expireAt s.heap entry).isSome = true)
    exact ⟨_, by rw [Pile.apply, hpush]; rfl⟩
  · intro hne
    obtain ⟨⟨top, heap'⟩, hpop⟩ := Option.isSome_iff_exists.mp
      (popHeap_isSome hne : (popHeap expireAt s.heap).isSome = true)
    have htop := popHeap_top hpop
    refine ⟨top, heap', hpop, List.mem_of_head? htop, fun x hx => ?_⟩
    obtain ⟨i, hi⟩ := List.getElem?_of_mem hx
    obtain ⟨hlt, -⟩ := List.getElem?_eq_some_iff.mp hi
    rw [List.head?_eq_getElem?] at htop
    have hle := hordered.root_le hlt
    rwa [keys_of_getElem htop, keys_of_getElem hi] at hle

/-- Three deadlines pushed, one popped. -/
def threePile : Pile Int :=
  (pileMachine id).final [.push 5, .push 3, .push 4, .pop] {}

theorem threePile_pops :
    threePile.heap = [4, 5]
    ∧ ∃ top heap', popHeap id threePile.heap = some (top, heap')
      ∧ top ∈ threePile.heap ∧ ∀ x ∈ threePile.heap, id top ≤ id x :=
  ⟨rfl, (heap_sequences id threePile
    (Machine.reachable_final rfl rfl)).2.2.2.1 (by decide)⟩

end AntRpc.Timer
