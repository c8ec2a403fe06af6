/-
The heap operations return, stay in range and keep what they are given.

The invariant of both loops is the hole: the vector with the entry in
hand written into it is the same collection at every turn.
-/
import AntRpc.Timer.Heap

namespace AntRpc.Timer

variable {α : Type} {expireAt : α → Int} {heap heap' : List α}
  {entry : α}

theorem write_eq_some {index : Nat} :
    write heap index entry = some heap'
      ↔ index < heap.length ∧ heap' = heap.set index entry := by
  unfold write
  split
  · next h => simp [h, eq_comm]
  · next h => simp [h]

/-- Moving the hole from `i` to `j` keeps the collection. -/
theorem hole_perm {i j : Nat} {x : α} (hi : i < heap.length)
    (hne : j ≠ i) (hx : heap[j]? = some x) :
    ((heap.set i x).set j entry).Perm (heap.set i entry) := by
  obtain ⟨hj, hx⟩ := List.getElem?_eq_some_iff.mp hx
  have hi' : i < (heap.set i entry).length := by rwa [List.length_set]
  have hj' : j < (heap.set i entry).length := by rwa [List.length_set]
  have hperm := List.set_set_perm hi' hj'
  rw [List.getElem_set_self, List.getElem_set_ne (Ne.symm hne),
    List.set_set, hx] at hperm
  exact hperm

-- == sift_up

theorem siftUpLoop_perm {fuel index : Nat}
    (h : siftUpLoop expireAt entry fuel heap index = some heap') :
    heap'.Perm (heap.set index entry) := by
  induction fuel generalizing heap index with
  | zero => cases h
  | succ fuel ih =>
      simp only [siftUpLoop] at h
      split at h
      · next hpos =>
        obtain ⟨above, habove, h⟩ := Option.bind_eq_some_iff.mp h
        split at h
        · obtain ⟨moved, hmoved, h⟩ := Option.bind_eq_some_iff.mp h
          obtain ⟨hlt, rfl⟩ := write_eq_some.mp hmoved
          exact (ih h).trans (hole_perm hlt (by omega) habove)
        · rw [(write_eq_some.mp h).2]
      · rw [(write_eq_some.mp h).2]

/-- The index goes down at every turn. -/
theorem siftUpLoop_isSome {fuel index : Nat} (hlt : index < heap.length)
    (hfuel : index < fuel) :
    (siftUpLoop expireAt entry fuel heap index).isSome = true := by
  induction fuel generalizing heap index with
  | zero => omega
  | succ fuel ih =>
      have hwrite {x : α} : write heap index x = some (heap.set index x) :=
        write_eq_some.mpr ⟨hlt, rfl⟩
      simp only [siftUpLoop]
      split
      · next hpos =>
        have hparent : (index - 1) / 4 < heap.length := by omega
        rw [List.getElem?_eq_getElem hparent]
        simp only [Option.bind_eq_bind, Option.bind_some, hwrite]
        split
        · exact ih (by rw [List.length_set]; omega) (by omega)
        · rfl
      · rw [hwrite]
        rfl

theorem pushHeap_perm (h : pushHeap expireAt heap entry = some heap') :
    heap'.Perm (entry :: heap) := by
  obtain ⟨last, hlast, h⟩ := Option.bind_eq_some_iff.mp h
  rw [List.getElem?_concat_length] at hlast
  cases hlast
  refine (siftUpLoop_perm h).trans ?_
  rw [List.set_append_right _ _ (Nat.le_refl _), Nat.sub_self]
  exact List.perm_append_singleton _ _

theorem pushHeap_isSome : (pushHeap expireAt heap entry).isSome = true := by
  unfold pushHeap siftUp
  rw [List.getElem?_concat_length]
  exact siftUpLoop_isSome (by rw [List.length_append]; simp)
    (Nat.lt_succ_self _)

-- == sift_down

/-- The scan stays among the children it was given. -/
theorem minChildLoop_range {k c m : Nat} {t : Int} {r : Nat × Int}
    (h : minChildLoop expireAt heap k c m t = some r) :
    r.1 = m ∨ c ≤ r.1 ∧ r.1 < c + k := by
  induction k generalizing c m t with
  | zero =>
      cases h
      exact Or.inl rfl
  | succ k ih =>
      simp only [minChildLoop] at h
      obtain ⟨child, -, h⟩ := Option.bind_eq_some_iff.mp h
      split at h
      · rcases ih h with heq | hrange <;> omega
      · rcases ih h with heq | hrange <;> omega

theorem minChildLoop_isSome {k c m : Nat} {t : Int}
    (hle : c + k ≤ heap.length) :
    (minChildLoop expireAt heap k c m t).isSome = true := by
  induction k generalizing c m t with
  | zero => rfl
  | succ k ih =>
      have hc : c < heap.length := by omega
      simp only [minChildLoop, List.getElem?_eq_getElem hc,
        Option.bind_eq_bind, Option.bind_some]
      split <;> exact ih (by omega)

theorem siftDownLoop_perm {fuel index : Nat}
    (h : siftDownLoop expireAt entry fuel heap index = some heap') :
    heap'.Perm (heap.set index entry) := by
  induction fuel generalizing heap index with
  | zero => cases h
  | succ fuel ih =>
      simp only [siftDownLoop] at h
      split at h
      · rw [(write_eq_some.mp h).2]
      · obtain ⟨first, -, h⟩ := Option.bind_eq_some_iff.mp h
        obtain ⟨⟨child, time⟩, hscan, h⟩ := Option.bind_eq_some_iff.mp h
        split at h
        · obtain ⟨below, hbelow, h⟩ := Option.bind_eq_some_iff.mp h
          obtain ⟨moved, hmoved, h⟩ := Option.bind_eq_some_iff.mp h
          obtain ⟨hlt, rfl⟩ := write_eq_some.mp hmoved
          have hne : child ≠ index := by
            have : child = _ ∨ _ := minChildLoop_range hscan
            omega
          exact (ih h).trans (hole_perm hlt hne hbelow)
        · rw [(write_eq_some.mp h).2]

/-- The index goes up at every turn. -/
theorem siftDownLoop_isSome {fuel index : Nat} (hlt : index < heap.length)
    (hfuel : heap.length - index ≤ fuel) :
    (siftDownLoop expireAt entry fuel heap index).isSome = true := by
  induction fuel generalizing heap index with
  | zero => omega
  | succ fuel ih =>
      have hwrite {x : α} : write heap index x = some (heap.set index x) :=
        write_eq_some.mpr ⟨hlt, rfl⟩
      simp only [siftDownLoop]
      split
      · rw [hwrite]
        rfl
      · next hfirst =>
        rw [List.getElem?_eq_getElem (by omega)]
        simp only [Option.bind_eq_bind, Option.bind_some, hwrite]
        generalize hscan : minChildLoop expireAt heap _ _ _ _ = scan
        cases scan with
        | none =>
            have hsome := congrArg Option.isSome hscan
            rw [minChildLoop_isSome (by omega)] at hsome
            cases hsome
        | some r =>
            have hr := minChildLoop_range hscan
            have hchild : r.1 < heap.length := by omega
            simp only [Option.bind_some]
            split
            · rw [List.getElem?_eq_getElem hchild]
              exact ih (by rwa [List.length_set]) (by
                rw [List.length_set]
                omega)
            · rfl

theorem popHeap_perm {top : α} (h : popHeap expireAt heap = some (top, heap')) :
    heap.Perm (top :: heap') := by
  obtain ⟨top', htop, h⟩ := Option.bind_eq_some_iff.mp h
  obtain ⟨back, hback, h⟩ := Option.bind_eq_some_iff.mp h
  have hsplit : heap = heap.dropLast ++ [back] :=
    (List.dropLast_append_getLast? back hback).symm
  simp only at h
  split at h
  · next hrest =>
    cases h
    rw [hsplit, hrest] at htop ⊢
    cases htop
    exact List.Perm.refl _
  · obtain ⟨moved, hmoved, h⟩ := Option.bind_eq_some_iff.mp h
    obtain ⟨rest, hsift, h⟩ := Option.bind_eq_some_iff.mp h
    cases h
    obtain ⟨hlt, rfl⟩ := write_eq_some.mp hmoved
    obtain ⟨entry, hentry, hsift⟩ := Option.bind_eq_some_iff.mp hsift
    rw [List.getElem?_set_self hlt] at hentry
    cases hentry
    have hperm := siftDownLoop_perm hsift
    rw [List.set_set] at hperm
    -- the back goes where the top was
    generalize heap.dropLast = init at *
    cases init with
    | nil => cases hlt
    | cons first init =>
        rw [hsplit] at htop ⊢
        cases htop
        refine List.Perm.cons _ ?_
        exact (List.perm_append_singleton _ _).trans hperm.symm

theorem popHeap_top {top : α} (h : popHeap expireAt heap = some (top, heap')) :
    heap.head? = some top := by
  obtain ⟨top', htop, h⟩ := Option.bind_eq_some_iff.mp h
  obtain ⟨back, -, h⟩ := Option.bind_eq_some_iff.mp h
  rw [← List.head?_eq_getElem?] at htop
  simp only at h
  split at h
  · cases h
    exact htop
  · obtain ⟨moved, -, h⟩ := Option.bind_eq_some_iff.mp h
    obtain ⟨rest, -, h⟩ := Option.bind_eq_some_iff.mp h
    cases h
    exact htop

theorem popHeap_isSome (hne : heap ≠ []) :
    (popHeap expireAt heap).isSome = true := by
  obtain ⟨top, init, rfl⟩ := List.exists_cons_of_ne_nil hne
  unfold popHeap
  rw [List.getLast?_eq_some_getLast hne]
  simp only [List.getElem?_cons_zero, Option.bind_eq_bind, Option.bind_some]
  split
  · rfl
  · next hrest =>
    have hlen : 0 < ((top :: init).dropLast).length :=
      List.length_pos_iff.mpr hrest
    rw [write_eq_some.mpr ⟨hlen, rfl⟩]
    simp only [Option.bind_some, siftDown]
    rw [List.getElem?_set_self hlen]
    simp only [Option.bind_eq_bind, Option.bind_some]
    have hsift : (siftDownLoop expireAt ((top :: init).getLast hne) _
        ((top :: init).dropLast.set 0 ((top :: init).getLast hne)) 0).isSome
          = true :=
      siftDownLoop_isSome (by rwa [List.length_set]) (Nat.sub_le _ _)
    obtain ⟨rest, hrest⟩ := Option.isSome_iff_exists.mp hsift
    rw [hrest]
    rfl

end AntRpc.Timer
