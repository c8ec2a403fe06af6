/-
What the recorder's words hold in every state, and what a snapshot may
conclude from them.

# Stages

A call passes five stages; `past k` are the latencies of the calls that
have reached stage `k`. The total is the saturated sum of `past 1`, the
minimum is the least of `past 2`, the maximum the greatest of `past 3`, and
the count is the number of `past 4`, as far as a word can count
(`Summary`). A retry loop changes its word in one step, so each stage is
reached in the step that makes its word right.

# Readers

A reader loads the count first, and the latencies counted then have reached
every stage. The words only go on in their directions, so what it loads
later is at least as far: the total is no less, the minimum no greater, the
maximum no less (`Reads`). If no call is on its way the bounds are exact.

# The count

The count is a word of 64 bits and wraps. After `2^64` calls it is zero
again, and `Snapshot` reports that nothing was recorded.
-/
import AntRpc.Metrics.LatencyRecorder

namespace AntRpc.Metrics.LatencyRecorder

open Lib

variable {s s' : LatencyRecorder}

-- == stages

def RecordPc.stage {latency : UInt64} : RecordPc latency → Nat
  | .addToTotal _ => 0
  | .updateMin _ => 1
  | .updateMax _ => 2
  | .addCount => 3
  | .done => 4

/-- The latency of a call that has reached a stage. -/
def Call.past? (k : Nat) (c : Call) : Option UInt64 :=
  if k ≤ c.pc.stage then some c.latency else none

/-- The latencies of the calls that have reached a stage. -/
def past (k : Nat) (calls : List Call) : List UInt64 :=
  calls.filterMap (Call.past? k)

theorem counted_eq (s : LatencyRecorder) : s.counted = past 4 s.calls := by
  unfold counted past
  congr 1
  funext c
  unfold Call.past?
  cases c.pc <;> rfl

theorem past_append (k : Nat) (l r : List Call) :
    past k (l ++ r) = past k l ++ past k r :=
  List.filterMap_append

theorem past_cons (k : Nat) (c : Call) (r : List Call) :
    past k (c :: r) = (c.past? k).toList ++ past k r := by
  unfold past
  rw [List.filterMap_cons]
  cases c.past? k <;> rfl

theorem past_length_le (k : Nat) (calls : List Call) :
    (past k calls).length ≤ calls.length :=
  List.length_filterMap_le _ _

/-- Who has got further has passed here. -/
theorem past_sublist {j k : Nat} (hjk : j ≤ k) (calls : List Call) :
    (past k calls).Sublist (past j calls) := by
  induction calls with
  | nil => exact List.Sublist.refl _
  | cons c calls ih =>
      rw [past_cons, past_cons]
      refine List.Sublist.append ?_ ih
      unfold Call.past?
      by_cases hk : k ≤ c.pc.stage
      · rw [if_pos hk, if_pos (Nat.le_trans hjk hk)]
      · rw [if_neg hk]
        exact List.nil_sublist _

/-- A call that stays where it is changes nothing. -/
theorem past_stay {k : Nat} {l r : List Call} {c : Call}
    {pc : RecordPc c.latency} (h : pc.stage = c.pc.stage) :
    past k (l ++ ⟨c.latency, pc⟩ :: r) = past k (l ++ c :: r) := by
  rw [past_append, past_append, past_cons, past_cons]
  unfold Call.past?
  rw [h]

/-- A call that reaches the next stage changes nothing at another. -/
theorem past_other {j k : Nat} {l r : List Call} {c : Call}
    {pc : RecordPc c.latency} (hfrom : c.pc.stage = j)
    (hto : pc.stage = j + 1) (hk : k ≠ j + 1) :
    past k (l ++ ⟨c.latency, pc⟩ :: r) = past k (l ++ c :: r) := by
  rw [past_append, past_append, past_cons, past_cons]
  unfold Call.past?
  rw [hfrom, hto]
  have hiff : k ≤ j + 1 ↔ k ≤ j := by omega
  simp only [hiff]

/-- It adds its latency there. -/
theorem past_reach {j : Nat} {l r : List Call} {c : Call}
    {pc : RecordPc c.latency} (hfrom : c.pc.stage = j)
    (hto : pc.stage = j + 1) :
    (past (j + 1) (l ++ ⟨c.latency, pc⟩ :: r)).Perm
      (c.latency :: past (j + 1) (l ++ c :: r)) := by
  rw [past_append, past_append, past_cons, past_cons]
  unfold Call.past?
  rw [hfrom, hto, if_pos (Nat.le_refl _), if_neg (Nat.not_succ_le_self j)]
  exact List.perm_middle

-- == words

/-- The largest value of a word. -/
def top : Nat := 2 ^ 64 - 1

/-- The sum as a word keeps it: at most the largest value. -/
def saturated (n : Nat) : Nat := Min.min n top

def sum (latencies : List UInt64) : Nat :=
  (latencies.map UInt64.toNat).sum

theorem sum_perm {l l' : List UInt64} (h : l.Perm l') : sum l = sum l' :=
  (h.map _).sum_eq

theorem sum_cons (v : UInt64) (l : List UInt64) :
    sum (v :: l) = v.toNat + sum l := by
  unfold sum
  rw [List.map_cons, List.sum_cons]

theorem sum_le_of_subperm {l l' : List UInt64} (h : l.Subperm l') :
    sum l ≤ sum l' := by
  obtain ⟨m, hm, hsub⟩ := h
  rw [← sum_perm hm]
  exact (hsub.map _).sum_le_sum (fun _ _ => Nat.zero_le _)

theorem toNat_le_top (v : UInt64) : v.toNat ≤ top :=
  Nat.le_sub_one_of_lt v.toNat_lt

theorem nextTotal_toNat {latency current total : UInt64}
    (h : nextTotal latency current = some total) :
    total.toNat = saturated (current.toNat + latency.toNat) := by
  obtain rfl := Option.some.inj h
  have hcurrent := current.toNat_lt
  have hlatency := latency.toNat_lt
  have hroom : (maxValue - current).toNat = top - current.toNat := by
    rw [UInt64.toNat_sub_of_le]
    · rfl
    · exact toNat_le_top current
  by_cases hfull : maxValue - current < latency
  · rw [if_pos hfull]
    have hfull : top - current.toNat < latency.toNat := by
      rw [← hroom]
      exact hfull
    show top = saturated _
    unfold saturated
    omega
  · rw [if_neg hfull, UInt64.toNat_add]
    have hfull : ¬ top - current.toNat < latency.toNat := by
      rw [← hroom]
      exact hfull
    unfold saturated top at *
    omega

theorem nextMin_eq_some {latency current min : UInt64}
    (h : nextMin latency current = some min) :
    min = latency ∧ latency.toNat < current.toNat := by
  obtain ⟨hless, hmin⟩ := Option.ite_none_right_eq_some.mp h
  exact ⟨(Option.some.inj hmin).symm, hless⟩

theorem nextMin_eq_none {latency current : UInt64}
    (h : nextMin latency current = none) :
    current.toNat ≤ latency.toNat := by
  by_contra hless
  have hless : latency < current := Nat.lt_of_not_le hless
  rw [nextMin, if_pos hless] at h
  cases h

theorem nextMax_eq_some {latency current max : UInt64}
    (h : nextMax latency current = some max) :
    max = latency ∧ current.toNat < latency.toNat := by
  obtain ⟨hless, hmax⟩ := Option.ite_none_right_eq_some.mp h
  exact ⟨(Option.some.inj hmax).symm, hless⟩

theorem nextMax_eq_none {latency current : UInt64}
    (h : nextMax latency current = none) :
    latency.toNat ≤ current.toNat := by
  by_contra hless
  have hless : latency > current := Nat.lt_of_not_le hless
  rw [nextMax, if_pos hless] at h
  cases h

-- == steps

/-- What an operation of a `RecordMicroseconds` can do. -/
inductive RecordStep (s : LatencyRecorder) {latency : UInt64}
    (pc : RecordPc latency) : LatencyRecorder × RecordPc latency → Prop
  | stay (pc' : RecordPc latency) (hstage : pc'.stage = pc.stage) :
      RecordStep s pc (s, pc')
  | added {total : UInt64} {pc' : RecordPc latency} (hfrom : pc.stage = 0)
      (hto : pc'.stage = 1)
      (htotal : total.toNat = saturated (s.total.toNat + latency.toNat)) :
      RecordStep s pc ({ s with total := total }, pc')
  | lowered {min : UInt64} {pc' : RecordPc latency} (hfrom : pc.stage = 1)
      (hto : pc'.stage = 2) (hle : min.toNat ≤ s.min.toNat)
      (hlatency : min.toNat ≤ latency.toNat)
      (hmin : min = s.min ∨ min = latency) :
      RecordStep s pc ({ s with min := min }, pc')
  | raised {max : UInt64} {pc' : RecordPc latency} (hfrom : pc.stage = 2)
      (hto : pc'.stage = 3) (hle : s.max.toNat ≤ max.toNat)
      (hlatency : latency.toNat ≤ max.toNat)
      (hmax : max = s.max ∨ max = latency) :
      RecordStep s pc ({ s with max := max }, pc')
  | counted {pc' : RecordPc latency} (hfrom : pc.stage = 3)
      (hto : pc'.stage = 4) :
      RecordStep s pc ({ s with count := s.count + 1 }, pc')

theorem execRecord_cases {spurious : Bool} {latency : UInt64}
    {pc : RecordPc latency} {r : LatencyRecorder × RecordPc latency}
    (h : execRecord spurious s pc = some r) : RecordStep s pc r := by
  cases pc with
  | addToTotal pc =>
      obtain rfl := Option.some.inj h
      have hstep := Retry.step_cases spurious s.total pc
      generalize Retry.step spurious s.total pc = r at hstep
      cases hstep with
      | goto pc' => exact .stay _ rfl
      | ended hended => cases hended
      | stored hstored => exact .added rfl rfl (nextTotal_toNat hstored)
  | updateMin pc =>
      obtain rfl := Option.some.inj h
      have hstep := Retry.step_cases spurious s.min pc
      generalize Retry.step spurious s.min pc = r at hstep
      cases hstep with
      | goto pc' => exact .stay _ rfl
      | ended hended =>
          exact .lowered rfl rfl (Nat.le_refl _) (nextMin_eq_none hended)
            (Or.inl rfl)
      | stored hstored =>
          obtain ⟨rfl, hless⟩ := nextMin_eq_some hstored
          exact .lowered rfl rfl (Nat.le_of_lt hless) (Nat.le_refl _)
            (Or.inr rfl)
  | updateMax pc =>
      obtain rfl := Option.some.inj h
      have hstep := Retry.step_cases spurious s.max pc
      generalize Retry.step spurious s.max pc = r at hstep
      cases hstep with
      | goto pc' => exact .stay _ rfl
      | ended hended =>
          exact .raised rfl rfl (Nat.le_refl _) (nextMax_eq_none hended)
            (Or.inl rfl)
      | stored hstored =>
          obtain ⟨rfl, hless⟩ := nextMax_eq_some hstored
          exact .raised rfl rfl (Nat.le_of_lt hless) (Nat.le_refl _)
            (Or.inr rfl)
  | addCount =>
      obtain rfl := Option.some.inj h
      exact .counted rfl rfl
  | done => cases h

-- == invariant

/-- The word is the least latency, or as it was made. -/
structure IsMin (min : UInt64) (latencies : List UInt64) : Prop where
  le : ∀ v ∈ latencies, min.toNat ≤ v.toNat
  mem : min = maxValue ∨ min ∈ latencies

/-- The word is the greatest latency, or as it was made. -/
structure IsMax (max : UInt64) (latencies : List UInt64) : Prop where
  ge : ∀ v ∈ latencies, v.toNat ≤ max.toNat
  mem : max = 0 ∨ max ∈ latencies

theorem IsMin.lower {min min' v : UInt64} {l l' : List UInt64}
    (h : IsMin min l) (hl : l'.Perm (v :: l)) (hle : min'.toNat ≤ min.toNat)
    (hv : min'.toNat ≤ v.toNat) (hmin : min' = min ∨ min' = v) :
    IsMin min' l' := by
  refine ⟨fun w hw => ?_, ?_⟩
  · rcases List.mem_cons.mp (hl.mem_iff.mp hw) with rfl | hw
    · exact hv
    · exact Nat.le_trans hle (h.le w hw)
  · rcases hmin with rfl | rfl
    · exact h.mem.imp_right fun hmem =>
        hl.mem_iff.mpr (List.mem_cons_of_mem _ hmem)
    · exact Or.inr (hl.mem_iff.mpr List.mem_cons_self)

theorem IsMax.raise {max max' v : UInt64} {l l' : List UInt64}
    (h : IsMax max l) (hl : l'.Perm (v :: l)) (hle : max.toNat ≤ max'.toNat)
    (hv : v.toNat ≤ max'.toNat) (hmax : max' = max ∨ max' = v) :
    IsMax max' l' := by
  refine ⟨fun w hw => ?_, ?_⟩
  · rcases List.mem_cons.mp (hl.mem_iff.mp hw) with rfl | hw
    · exact hv
    · exact Nat.le_trans (h.ge w hw) hle
  · rcases hmax with rfl | rfl
    · exact h.mem.imp_right fun hmem =>
        hl.mem_iff.mpr (List.mem_cons_of_mem _ hmem)
    · exact Or.inr (hl.mem_iff.mpr List.mem_cons_self)

/-- What the words say about the calls. -/
structure Summary (s : LatencyRecorder) : Prop where
  total : s.total.toNat = saturated (sum (past 1 s.calls))
  min : IsMin s.min (past 2 s.calls)
  max : IsMax s.max (past 3 s.calls)
  count : s.count.toNat = (past 4 s.calls).length % 2 ^ 64

/-- The words depend on the calls only through those past each stage. -/
theorem Summary.congr (h : Summary s) {calls : List Call}
    {readers : List Reader}
    (hsame : ∀ k, 1 ≤ k → past k calls = past k s.calls) :
    Summary { s with calls := calls, readers := readers } where
  total := by
    rw [hsame 1 (by decide)]
    exact h.total
  min := by
    rw [hsame 2 (by decide)]
    exact h.min
  max := by
    rw [hsame 3 (by decide)]
    exact h.max
  count := by
    rw [hsame 4 (by decide)]
    exact h.count

/-- A new call is past no stage. -/
theorem past_begin {k : Nat} (hk : 1 ≤ k) (calls : List Call)
    (latency : UInt64) :
    past k (calls ++ [{ latency := latency }]) = past k calls := by
  have hnone : Call.past? k { latency := latency } = none :=
    if_neg (Nat.not_le_of_lt hk)
  rw [past_append, past_cons, hnone]
  exact List.append_nil _

/-- A call that reaches a stage makes the word of that stage right and
leaves the others. -/
theorem Summary.record {l r : List Call} {c : Call}
    {q : LatencyRecorder × RecordPc c.latency} (h : Summary s)
    (hcalls : s.calls = l ++ c :: r) (hstep : RecordStep s c.pc q) :
    Summary { q.1 with calls := l ++ ⟨c.latency, q.2⟩ :: r } := by
  obtain ⟨htotal, hmin, hmax, hcount⟩ := h
  rw [hcalls] at htotal hmin hmax hcount
  cases hstep with
  | stay pc hstage =>
      have h : Summary { s with calls := l ++ c :: r } :=
        ⟨htotal, hmin, hmax, hcount⟩
      exact h.congr fun k _ => past_stay hstage
  | @added total pc hfrom hto htotal' =>
      have hother := fun k => past_other (k := k) (l := l) (r := r) hfrom hto
      have hsum : sum (past 1 (l ++ ⟨c.latency, pc⟩ :: r))
          = sum (c.latency :: past 1 (l ++ c :: r)) :=
        sum_perm (past_reach hfrom hto)
      refine ⟨?_, by rwa [hother 2 (by decide)],
        by rwa [hother 3 (by decide)], by rwa [hother 4 (by decide)]⟩
      show total.toNat = saturated (sum (past 1 _))
      rw [htotal', htotal, hsum, sum_cons]
      unfold saturated
      omega
  | @lowered min pc hfrom hto hle hlatency hchange =>
      have hother := fun k => past_other (k := k) (l := l) (r := r) hfrom hto
      exact ⟨by rwa [hother 1 (by decide)],
        hmin.lower (past_reach hfrom hto) hle hlatency hchange,
        by rwa [hother 3 (by decide)], by rwa [hother 4 (by decide)]⟩
  | @raised max pc hfrom hto hle hlatency hchange =>
      have hother := fun k => past_other (k := k) (l := l) (r := r) hfrom hto
      exact ⟨by rwa [hother 1 (by decide)], by rwa [hother 2 (by decide)],
        hmax.raise (past_reach hfrom hto) hle hlatency hchange,
        by rwa [hother 4 (by decide)]⟩
  | @counted pc hfrom hto =>
      have hother := fun k => past_other (k := k) (l := l) (r := r) hfrom hto
      refine ⟨by rwa [hother 1 (by decide)], by rwa [hother 2 (by decide)],
        by rwa [hother 3 (by decide)], ?_⟩
      show (s.count + 1).toNat = (past (3 + 1) _).length % 2 ^ 64
      rw [(past_reach hfrom hto).length_eq, List.length_cons,
        UInt64.toNat_add, hcount, UInt64.toNat_one, Nat.mod_add_mod]

-- == readers

/-- Only more gets counted, and no call is forgotten. -/
structure Grows (s s' : LatencyRecorder) : Prop where
  counted : (past 4 s.calls).Subperm (past 4 s'.calls)
  calls : s.calls.length ≤ s'.calls.length

/-- What a reader knows of its count. -/
structure Counts (s : LatencyRecorder) (counted : List UInt64)
    (count : UInt64) : Prop where
  nonzero : count ≠ 0
  count : count.toNat = counted.length % 2 ^ 64
  subperm : counted.Subperm (past 4 s.calls)

/-- What was loaded after the count: bounds, which are exact if nothing
but the counted calls has begun. -/
structure ReadTotal (s : LatencyRecorder) (counted : List UInt64)
    (total : UInt64) : Prop where
  ge : saturated (sum counted) ≤ total.toNat
  exact : counted.length = s.calls.length →
    total.toNat = saturated (sum counted)

structure ReadMin (s : LatencyRecorder) (counted : List UInt64)
    (min : UInt64) : Prop where
  le : ∀ v ∈ counted, min.toNat ≤ v.toNat
  exact : counted.length = s.calls.length → min ∈ counted

structure ReadMax (s : LatencyRecorder) (counted : List UInt64)
    (max : UInt64) : Prop where
  ge : ∀ v ∈ counted, v.toNat ≤ max.toNat
  exact : counted.length = s.calls.length → max ∈ counted

/-- What a reader knows at each point. -/
def Reads (s : LatencyRecorder) (counted : List UInt64) :
    SnapshotPc → Prop
  | .count => True
  | .total count => Counts s counted count
  | .min count total => Counts s counted count ∧ ReadTotal s counted total
  | .max count total min =>
      Counts s counted count ∧ ReadTotal s counted total
        ∧ ReadMin s counted min
  | .done snapshot =>
      snapshot = {} ∧ counted.length % 2 ^ 64 = 0
        ∨ Counts s counted snapshot.count
          ∧ ReadTotal s counted snapshot.totalMicroseconds
          ∧ ReadMin s counted snapshot.minMicroseconds
          ∧ ReadMax s counted snapshot.maxMicroseconds
          ∧ snapshot.averageMicroseconds
            = snapshot.totalMicroseconds / snapshot.count

section Grow

variable {counted : List UInt64} {count total min max : UInt64}

theorem Counts.grow (h : Counts s counted count) (hg : Grows s s') :
    Counts s' counted count :=
  ⟨h.nonzero, h.count, h.subperm.trans hg.counted⟩

/-- If nothing but the counted calls has begun now, so it was before. -/
theorem Counts.all_before (h : Counts s counted count) (hg : Grows s s')
    (hall : counted.length = s'.calls.length) :
    counted.length = s.calls.length := by
  have hcounted := h.subperm.length_le
  have hpast := past_length_le 4 s.calls
  have hcalls := hg.calls
  omega

theorem Reads.grow {pc : SnapshotPc} (h : Reads s counted pc)
    (hg : Grows s s') : Reads s' counted pc := by
  have htotal : ∀ {count total}, Counts s counted count →
      ReadTotal s counted total → ReadTotal s' counted total :=
    fun hc ht => ⟨ht.ge, fun hall => ht.exact (hc.all_before hg hall)⟩
  have hmin : ∀ {count min}, Counts s counted count →
      ReadMin s counted min → ReadMin s' counted min :=
    fun hc hm => ⟨hm.le, fun hall => hm.exact (hc.all_before hg hall)⟩
  have hmax : ∀ {count max}, Counts s counted count →
      ReadMax s counted max → ReadMax s' counted max :=
    fun hc hm => ⟨hm.ge, fun hall => hm.exact (hc.all_before hg hall)⟩
  cases pc with
  | count => trivial
  | total count => exact Counts.grow h hg
  | min count total =>
      obtain ⟨hc, ht⟩ := h
      exact ⟨hc.grow hg, htotal hc ht⟩
  | max count total min =>
      obtain ⟨hc, ht, hm⟩ := h
      exact ⟨hc.grow hg, htotal hc ht, hmin hc hm⟩
  | done snapshot =>
      refine h.imp_right ?_
      rintro ⟨hc, ht, hm, hM, haverage⟩
      exact ⟨hc.grow hg, htotal hc ht, hmin hc hm, hmax hc hM, haverage⟩

end Grow

section Load

variable {counted : List UInt64} {count : UInt64}

/-- If nothing but the counted calls has begun, they are past every
stage. -/
theorem Counts.perm (h : Counts s counted count) {k : Nat} (hk : k ≤ 4)
    (hall : counted.length = s.calls.length) :
    counted.Perm (past k s.calls) := by
  have hsub : counted.Subperm (past k s.calls) :=
    h.subperm.trans (past_sublist hk s.calls).subperm
  refine hsub.perm_of_length_le ?_
  rw [hall]
  exact past_length_le k s.calls

theorem Counts.mem_past (h : Counts s counted count) {k : Nat} (hk : k ≤ 4)
    {v : UInt64} (hv : v ∈ counted) : v ∈ past k s.calls :=
  (past_sublist hk s.calls).subset (h.subperm.subset hv)

/-- A count that is not zero has counted something. -/
theorem Counts.exists_mem (h : Counts s counted count) :
    ∃ v, v ∈ counted := by
  cases counted with
  | nil => exact absurd (UInt64.toNat_inj.mp h.count) h.nonzero
  | cons v counted => exact ⟨v, List.mem_cons_self⟩

theorem Counts.readTotal (h : Counts s counted count) (hs : Summary s) :
    ReadTotal s counted s.total := by
  have hle : sum counted ≤ sum (past 1 s.calls) := sum_le_of_subperm
    (h.subperm.trans (past_sublist (by decide) s.calls).subperm)
  refine ⟨?_, fun hall => ?_⟩
  · rw [hs.total]
    unfold saturated
    omega
  · rw [hs.total, sum_perm (h.perm (k := 1) (by decide) hall)]

theorem Counts.readMin (h : Counts s counted count) (hs : Summary s) :
    ReadMin s counted s.min := by
  refine ⟨fun v hv => hs.min.le v (h.mem_past (by decide) hv),
    fun hall => ?_⟩
  have hperm := h.perm (k := 2) (by decide) hall
  rcases hs.min.mem with hmin | hmin
  · -- the word is as it was made, so the counted latencies are as large
    obtain ⟨v, hv⟩ := h.exists_mem
    have hle := hs.min.le v (h.mem_past (by decide) hv)
    have hv_le := toNat_le_top v
    have htop : s.min.toNat = top := by rw [hmin]; rfl
    have hsame : s.min = v := UInt64.toNat_inj.mp (by omega)
    rw [hsame]
    exact hv
  · exact hperm.mem_iff.mpr hmin

theorem Counts.readMax (h : Counts s counted count) (hs : Summary s) :
    ReadMax s counted s.max := by
  refine ⟨fun v hv => hs.max.ge v (h.mem_past (by decide) hv),
    fun hall => ?_⟩
  have hperm := h.perm (k := 3) (by decide) hall
  rcases hs.max.mem with hmax | hmax
  · obtain ⟨v, hv⟩ := h.exists_mem
    have hle := hs.max.ge v (h.mem_past (by decide) hv)
    have hzero : s.max.toNat = 0 := by rw [hmax]; rfl
    have hsame : s.max = v := UInt64.toNat_inj.mp (by omega)
    rw [hsame]
    exact hv
  · exact hperm.mem_iff.mpr hmax

end Load

/-- A load keeps a reader's knowledge. -/
theorem Reads.load {r r' : Reader} (hs : Summary s)
    (h : Reads s r.counted r.pc) (hload : execSnapshot s r = some r') :
    Reads s r'.counted r'.pc := by
  obtain ⟨pc, counted⟩ := r
  cases pc with
  | count =>
      obtain rfl := Option.some.inj hload
      show Reads s s.counted (if s.count = 0 then .done {} else .total s.count)
      rw [counted_eq]
      by_cases hzero : s.count = 0
      · rw [if_pos hzero]
        refine Or.inl ⟨rfl, ?_⟩
        rw [← hs.count, hzero]
        rfl
      · rw [if_neg hzero]
        exact ⟨hzero, hs.count, List.Subperm.refl _⟩
  | total count =>
      obtain rfl := Option.some.inj hload
      exact ⟨h, Counts.readTotal h hs⟩
  | min count total =>
      obtain rfl := Option.some.inj hload
      obtain ⟨hc, ht⟩ := h
      exact ⟨hc, ht, hc.readMin hs⟩
  | max count total min =>
      obtain rfl := Option.some.inj hload
      obtain ⟨hc, ht, hm⟩ := h
      exact Or.inr ⟨hc, ht, hm, hc.readMax hs, rfl⟩
  | done snapshot => cases hload

-- == runs

structure Inv (s : LatencyRecorder) : Prop where
  summary : Summary s
  reads : ∀ r ∈ s.readers, Reads s r.counted r.pc

theorem Inv.grow {calls : List Call} {count total min max : UInt64}
    (h : Inv s) (hs : Summary ⟨count, total, min, max, calls, s.readers⟩)
    (hg : Grows s ⟨count, total, min, max, calls, s.readers⟩) :
    Inv ⟨count, total, min, max, calls, s.readers⟩ :=
  ⟨hs, fun r hr => (h.reads r hr).grow hg⟩

theorem Inv.begin (h : Inv s) (latency : UInt64) :
    Inv { s with calls := s.calls ++ [{ latency := latency }] } := by
  refine h.grow (h.summary.congr fun k hk => past_begin hk _ _) ⟨?_, ?_⟩
  · show (past 4 s.calls).Subperm (past 4 (s.calls ++ _))
    rw [past_begin (by decide)]
  · show s.calls.length ≤ (s.calls ++ _).length
    rw [List.length_append]
    exact Nat.le_add_right _ _

/-- The readers are not an operation's business. -/
theorem RecordStep.readers {latency : UInt64} {pc : RecordPc latency}
    {q : LatencyRecorder × RecordPc latency} (h : RecordStep s pc q) :
    q.1.readers = s.readers := by
  cases h <;> rfl

/-- A call only goes on. -/
theorem RecordStep.stage_le {latency : UInt64} {pc : RecordPc latency}
    {q : LatencyRecorder × RecordPc latency} (h : RecordStep s pc q) :
    q.2.stage = pc.stage ∨ q.2.stage = pc.stage + 1 := by
  cases h with
  | stay pc' hstage => exact Or.inl hstage
  | added hfrom hto _ | lowered hfrom hto _ _ _ | raised hfrom hto _ _ _
  | counted hfrom hto =>
      exact Or.inr (by rw [hfrom, hto])

theorem past_subperm {k : Nat} {l r : List Call} {c : Call}
    {q : LatencyRecorder × RecordPc c.latency} (h : RecordStep s c.pc q) :
    (past k (l ++ c :: r)).Subperm
      (past k (l ++ ⟨c.latency, q.2⟩ :: r)) := by
  rcases h.stage_le with hstage | hstage
  · rw [past_stay hstage]
  · by_cases hk : k = c.pc.stage + 1
    · subst hk
      exact (List.sublist_cons_self _ _).subperm.trans
        (past_reach rfl hstage).symm.subperm
    · rw [past_other rfl hstage hk]

theorem Inv.record {i : Nat} {spurious : Bool} {c : Call}
    {q : LatencyRecorder × RecordPc c.latency} (h : Inv s)
    (hc : s.calls[i]? = some c) (hexec : execRecord spurious s c.pc = some q) :
    Inv { q.1 with calls := s.calls.set i ⟨c.latency, q.2⟩ } := by
  have hstep := execRecord_cases hexec
  obtain ⟨hi, hget⟩ := List.getElem?_eq_some_iff.mp hc
  obtain ⟨l, r, hcalls, -, hset⟩ : ∃ l r, s.calls = l ++ s.calls[i] :: r
      ∧ l.length = i ∧ s.calls.set i ⟨c.latency, q.2⟩ = l ++ _ :: r :=
    List.exists_of_set hi
  rw [hget] at hcalls
  rw [hset]
  have hsummary := h.summary.record hcalls hstep
  have hgrows : Grows s { q.1 with calls := l ++ ⟨c.latency, q.2⟩ :: r } := by
    refine ⟨?_, ?_⟩
    · rw [hcalls]
      exact past_subperm hstep
    · rw [hcalls, List.length_append, List.length_append]
      rfl
  refine ⟨hsummary, fun reader hreader => ?_⟩
  rw [show q.1.readers = s.readers from hstep.readers] at hreader
  exact (h.reads reader hreader).grow hgrows

theorem Inv.read {i : Nat} {r r' : Reader} (h : Inv s)
    (hr : s.readers[i]? = some r) (hload : execSnapshot s r = some r') :
    Inv { s with readers := s.readers.set i r' } := by
  have hgrows : Grows s { s with readers := s.readers.set i r' } :=
    ⟨List.Subperm.refl _, Nat.le_refl _⟩
  refine ⟨h.summary.congr fun k _ => rfl, fun reader hreader => ?_⟩
  rcases List.mem_or_eq_of_mem_set hreader with hreader | rfl
  · exact (h.reads reader hreader).grow hgrows
  · exact (Reads.load h.summary (h.reads r (List.mem_of_getElem? hr))
      hload).grow hgrows

theorem inv_apply {a : Action} (h : Inv s)
    (happly : machine.apply a s = some s') : Inv s' := by
  cases a with
  | record latency =>
      simp only [machine] at happly
      by_cases hneg : latency < 0
      · rw [if_pos hneg] at happly
        obtain rfl := Option.some.inj happly
        exact h
      · rw [if_neg hneg] at happly
        obtain rfl := Option.some.inj happly
        exact h.begin _
  | recordMicroseconds latency =>
      obtain rfl := Option.some.inj happly
      exact h.begin latency
  | step i spurious =>
      simp only [machine] at happly
      cases hc : s.calls[i]? with
      | none =>
          rw [hc] at happly
          cases happly
      | some c =>
          rw [hc] at happly
          obtain ⟨q, hexec, rfl⟩ := Option.map_eq_some_iff.mp happly
          exact h.record hc hexec
  | snapshot =>
      obtain rfl := Option.some.inj happly
      refine ⟨h.summary.congr fun k _ => rfl, fun r hr => ?_⟩
      rcases List.mem_append.mp hr with hr | hr
      · exact (h.reads r hr).grow ⟨List.Subperm.refl _, Nat.le_refl _⟩
      · rw [List.mem_singleton.mp hr]
        trivial
  | read i =>
      simp only [machine] at happly
      cases hr : s.readers[i]? with
      | none =>
          rw [hr] at happly
          cases happly
      | some r =>
          rw [hr] at happly
          obtain ⟨r', hload, rfl⟩ := Option.map_eq_some_iff.mp happly
          exact h.read hr hload

theorem inv_reachable (h : machine.Reachable s) : Inv s := by
  refine h.invariant (fun s hs => ?_)
    fun s s' a _ hs _ happly => inv_apply hs happly
  rw [show s = {} from hs]
  exact ⟨⟨rfl, ⟨nofun, Or.inl rfl⟩, ⟨nofun, Or.inl rfl⟩, rfl⟩, nofun⟩

-- == result

/-- Every call has ended. -/
def Finished (s : LatencyRecorder) : Prop := ∀ c ∈ s.calls, c.pc.stage = 4

/-- The recorded latencies. -/
def latencies (s : LatencyRecorder) : List UInt64 :=
  s.calls.map Call.latency

/-- A snapshot says exactly what some latencies are. -/
structure Exact (snapshot : LatencySnapshot) (latencies : List UInt64) :
    Prop where
  total : snapshot.totalMicroseconds.toNat = saturated (sum latencies)
  min_mem : snapshot.minMicroseconds ∈ latencies
  min_le : ∀ v ∈ latencies, snapshot.minMicroseconds ≤ v
  max_mem : snapshot.maxMicroseconds ∈ latencies
  le_max : ∀ v ∈ latencies, v ≤ snapshot.maxMicroseconds

theorem Reads.exact {counted : List UInt64} {snapshot : LatencySnapshot}
    (h : Reads s counted (.done snapshot)) (hcount : snapshot.count ≠ 0)
    (hall : counted.length = s.calls.length) : Exact snapshot counted := by
  rcases h with ⟨rfl, -⟩ | ⟨hc, ht, hm, hM, -⟩
  · exact absurd rfl hcount
  · exact ⟨ht.exact hall, hm.exact hall, hm.le, hM.exact hall, hM.ge⟩

theorem Reads.count {counted : List UInt64} {snapshot : LatencySnapshot}
    (h : Reads s counted (.done snapshot)) :
    snapshot.count.toNat = counted.length % 2 ^ 64
      ∧ (snapshot.count = 0 → snapshot = {}) := by
  rcases h with ⟨rfl, hzero⟩ | ⟨hc, -⟩
  · exact ⟨hzero.symm, fun _ => rfl⟩
  · exact ⟨hc.count, fun hzero => absurd hzero hc.nonzero⟩

/-- What a snapshot in the middle of anything can be relied on for. -/
structure Reflects (snapshot : LatencySnapshot) (counted : List UInt64) :
    Prop where
  min_le_max : snapshot.minMicroseconds ≤ snapshot.maxMicroseconds
  total : saturated (sum counted) ≤ snapshot.totalMicroseconds.toNat
  min_le : ∀ v ∈ counted, snapshot.minMicroseconds ≤ v
  le_max : ∀ v ∈ counted, v ≤ snapshot.maxMicroseconds

theorem Reads.reflects {counted : List UInt64} {snapshot : LatencySnapshot}
    (h : Reads s counted (.done snapshot)) (hcount : snapshot.count ≠ 0) :
    Reflects snapshot counted := by
  rcases h with ⟨rfl, -⟩ | ⟨hc, ht, hm, hM, -⟩
  · exact absurd rfl hcount
  · obtain ⟨v, hv⟩ := hc.exists_mem
    exact ⟨Nat.le_trans (hm.le v hv) (hM.ge v hv), ht.ge, hm.le, hM.ge⟩

theorem counted_finished (h : s.Finished) : s.counted = s.latencies := by
  rw [counted_eq]
  unfold past latencies
  rw [← List.filterMap_eq_map]
  refine List.filterMap_congr fun c hc => ?_
  exact if_pos (Nat.le_of_eq (h c hc).symm)

/-- The state after a reader that read everything at once. -/
def withSnapshot (s : LatencyRecorder) (snapshot : LatencySnapshot) :
    LatencyRecorder :=
  { s with readers := s.readers ++ [⟨.done snapshot, s.counted⟩] }

/-- A new reader's next load. -/
theorem apply_read_last {r r' : Reader} {readers : List Reader}
    (h : execSnapshot s r = some r') :
    machine.apply (.read readers.length) { s with readers := readers ++ [r] }
      = some { s with readers := readers ++ [r'] } := by
  have hget : (readers ++ [r])[readers.length]? = some r :=
    List.getElem?_concat_length
  have hset : (readers ++ [r]).set readers.length r' = readers ++ [r'] := by
    rw [List.set_append_right _ _ (Nat.le_refl _), Nat.sub_self]
    rfl
  have hexec : execSnapshot { s with readers := readers ++ [r] } r
      = some r' := by
    rw [← h]
    rfl
  simp only [machine, hget, hexec, Option.map_some, hset]

/-- `Snapshot`, left alone, ends after at most four loads. -/
theorem snapshot_alone (s : LatencyRecorder) :
    ∃ k snapshot, machine.run
      (.snapshot :: List.replicate k (.read s.readers.length)) s
        = some (s.withSnapshot snapshot) := by
  by_cases hzero : s.count = 0
  · refine ⟨1, {}, ?_⟩
    have hload : execSnapshot s {} = some ⟨.done {}, s.counted⟩ := by
      simp only [execSnapshot, if_pos hzero]
    show (machine.apply (.read _) _).bind _ = _
    rw [apply_read_last hload]
    rfl
  · refine ⟨4, ⟨s.count, s.total, s.min, s.max, s.total / s.count⟩, ?_⟩
    have hload : execSnapshot s {} = some ⟨.total s.count, s.counted⟩ := by
      simp only [execSnapshot, if_neg hzero]
    show (machine.apply (.read _) _).bind _ = _
    rw [apply_read_last hload]
    show (machine.apply (.read _) _).bind _ = _
    rw [apply_read_last rfl]
    show (machine.apply (.read _) _).bind _ = _
    rw [apply_read_last rfl]
    show (machine.apply (.read _) _).bind _ = _
    rw [apply_read_last rfl]
    rfl

/-- In every state each snapshot that counts something has its minimum
below its maximum and reflects at least the latencies counted when it
began, and says exactly what they are if no other call has begun. Once all
calls have ended, a `Snapshot` ends and reports the count as a word counts
and, unless that is zero, exactly the sum, the least and the greatest of
the latencies. -/
theorem snapshots_summarize (h : machine.Reachable s) :
    (∀ r ∈ s.readers, ∀ snapshot, r.pc = .done snapshot →
      snapshot.count ≠ 0 → Reflects snapshot r.counted
        ∧ (r.counted.length = s.calls.length →
          Exact snapshot r.counted))
      ∧ (s.Finished → ∃ k snapshot,
        machine.run (.snapshot :: List.replicate k (.read s.readers.length))
            s = some (s.withSnapshot snapshot)
          ∧ snapshot.count.toNat = s.calls.length % 2 ^ 64
          ∧ (snapshot.count = 0 → snapshot = {})
          ∧ (snapshot.count ≠ 0 → Exact snapshot s.latencies)) := by
  have hinv := inv_reachable h
  refine ⟨fun r hr snapshot hdone hcount => ?_, fun hfinished => ?_⟩
  · have hreads := hinv.reads r hr
    rw [hdone] at hreads
    exact ⟨hreads.reflects hcount, hreads.exact hcount⟩
  · obtain ⟨k, snapshot, hrun⟩ := snapshot_alone s
    have hinv' := inv_reachable (Machine.reachable_of_run h hrun)
    have hreads : Reads (s.withSnapshot snapshot) s.counted
        (.done snapshot) :=
      hinv'.reads ⟨.done snapshot, s.counted⟩
        (List.mem_append_right _ List.mem_cons_self)
    rw [counted_finished hfinished] at hreads
    have hlength : s.latencies.length = s.calls.length := List.length_map _
    obtain ⟨hcount, hzero⟩ := hreads.count
    rw [hlength] at hcount
    exact ⟨k, snapshot, hrun, hcount, hzero,
      fun hnonzero => hreads.exact hnonzero hlength⟩

/-- Two calls that meet on the total, with a spurious failure. -/
def twoCalls : List Action :=
  [.recordMicroseconds 5, .recordMicroseconds 7, .step 0 false,
    .step 1 false, .step 0 false, .step 1 false, .step 1 true,
    .step 1 false, .step 0 false, .step 0 false, .step 1 false,
    .step 1 false, .step 1 false, .step 0 false, .step 0 false,
    .step 1 false]

theorem twoCalls_summarized :
    (machine.final twoCalls {}).latencies = [5, 7]
      ∧ ∃ k snapshot, machine.run
          (.snapshot :: List.replicate k
            (.read (machine.final twoCalls {}).readers.length))
          (machine.final twoCalls {})
            = some ((machine.final twoCalls {}).withSnapshot snapshot)
        ∧ snapshot.count.toNat
          = (machine.final twoCalls {}).calls.length % 2 ^ 64
        ∧ (snapshot.count = 0 → snapshot = {})
        ∧ (snapshot.count ≠ 0 →
          Exact snapshot (machine.final twoCalls {}).latencies) :=
  ⟨by decide +kernel, (snapshots_summarize (Machine.reachable_final rfl
    (by decide +kernel))).2 (by unfold Finished; decide +kernel)⟩

-- == wrapping

/-- The next operation of the last call. -/
theorem apply_step_last {l : List Call} {c : Call}
    {q : LatencyRecorder × RecordPc c.latency} (hcalls : s.calls = l ++ [c])
    (h : execRecord false s c.pc = some q) :
    machine.apply (.step l.length false) s
      = some { q.1 with calls := l ++ [⟨c.latency, q.2⟩] } := by
  have hget : s.calls[l.length]? = some c := by
    rw [hcalls]
    exact List.getElem?_concat_length
  have hset : s.calls.set l.length ⟨c.latency, q.2⟩
      = l ++ [⟨c.latency, q.2⟩] := by
    rw [hcalls, List.set_append_right _ _ (Nat.le_refl _), Nat.sub_self]
    rfl
  simp only [machine, hget, h, Option.map_some, hset]

/-- A loop that is left alone is left, at once or on its next round. -/
theorem after_settles {next : UInt64 → Option UInt64} {latency : UInt64}
    {stay : Retry.Pc next → RecordPc latency} {leave : RecordPc latency}
    (word : UInt64) (pc : Retry.Pc next) :
    after (Retry.step false word pc).2 stay leave = leave
      ∨ ∃ pc', Retry.step false word pc = (word, .goto pc')
        ∧ after (Retry.step false word pc').2 stay leave = leave := by
  cases hstep : Retry.step false word pc with
  | mk word' outcome =>
      cases outcome with
      | stored => exact Or.inl rfl
      | ended => exact Or.inl rfl
      | goto pc' =>
          obtain ⟨rfl, desired, hnext⟩ := Retry.step_settles hstep
          refine Or.inr ⟨pc', rfl, ?_⟩
          rw [hnext]
          rfl

/-- So a call reaches its next stage in two operations, whatever other
calls stand by. -/
theorem execRecord_settles {latency : UInt64} {pc : RecordPc latency}
    (h : pc.stage ≠ 4) :
    ∃ q, execRecord false s pc = some q
      ∧ (q.2.stage = pc.stage + 1
        ∨ q.1 = s ∧ ∀ calls, ∃ q',
          execRecord false { s with calls := calls } q.2 = some q'
            ∧ q'.2.stage = pc.stage + 1) := by
  cases pc with
  | addToTotal pc =>
      refine ⟨_, rfl, ?_⟩
      rcases after_settles s.total pc with hleave | ⟨pc', hstay, hleave⟩
      · exact Or.inl (congrArg RecordPc.stage hleave)
      · rw [hstay]
        exact Or.inr ⟨rfl, fun calls =>
          ⟨_, rfl, congrArg RecordPc.stage hleave⟩⟩
  | updateMin pc =>
      refine ⟨_, rfl, ?_⟩
      rcases after_settles s.min pc with hleave | ⟨pc', hstay, hleave⟩
      · exact Or.inl (congrArg RecordPc.stage hleave)
      · rw [hstay]
        exact Or.inr ⟨rfl, fun calls =>
          ⟨_, rfl, congrArg RecordPc.stage hleave⟩⟩
  | updateMax pc =>
      refine ⟨_, rfl, ?_⟩
      rcases after_settles s.max pc with hleave | ⟨pc', hstay, hleave⟩
      · exact Or.inl (congrArg RecordPc.stage hleave)
      · rw [hstay]
        exact Or.inr ⟨rfl, fun calls =>
          ⟨_, rfl, congrArg RecordPc.stage hleave⟩⟩
  | addCount => exact ⟨_, rfl, Or.inl rfl⟩
  | done => exact absurd rfl h

theorem exists_next_stage {l : List Call} {c : Call}
    (h : machine.Reachable s) (hcalls : s.calls = l ++ [c])
    (hstage : c.pc.stage ≠ 4) :
    ∃ s' c', machine.Reachable s' ∧ s'.calls = l ++ [c']
      ∧ c'.pc.stage = c.pc.stage + 1 := by
  obtain ⟨q, hexec, hnext⟩ := execRecord_settles (s := s) hstage
  have hfirst := h.step trivial (apply_step_last hcalls hexec)
  rcases hnext with hnext | ⟨hwords, hnext⟩
  · exact ⟨_, _, hfirst, rfl, hnext⟩
  · rw [hwords] at hfirst
    obtain ⟨q', hexec', hstage'⟩ := hnext (l ++ [⟨c.latency, q.2⟩])
    have hsecond := hfirst.step trivial
      (apply_step_last (c := ⟨c.latency, q.2⟩) rfl hexec')
    exact ⟨_, _, hsecond, rfl, hstage'⟩

/-- The last call can be brought to its end. -/
theorem exists_ended {l : List Call} {c : Call} {n : Nat}
    (h : machine.Reachable s) (hcalls : s.calls = l ++ [c])
    (hstage : c.pc.stage + n = 4) :
    ∃ s' c', machine.Reachable s' ∧ s'.calls = l ++ [c']
      ∧ c'.pc.stage = 4 := by
  induction n generalizing s c with
  | zero => exact ⟨s, c, h, hcalls, hstage⟩
  | succ n ih =>
      obtain ⟨s', c', h', hcalls', hstage'⟩ :=
        exists_next_stage h hcalls (by omega)
      exact ih h' hcalls' (by omega)

/-- Any number of calls can have ended. -/
theorem exists_finished (n : Nat) :
    ∃ s, machine.Reachable s ∧ s.Finished ∧ s.calls.length = n := by
  induction n with
  | zero => exact ⟨{}, .start rfl, nofun, rfl⟩
  | succ n ih =>
      obtain ⟨s, hs, hfinished, hlength⟩ := ih
      have hbegin : machine.Reachable
          { s with calls := s.calls ++ [{ latency := 0 }] } :=
        hs.step (a := .recordMicroseconds 0) trivial rfl
      obtain ⟨s', c, hs', hcalls, hstage⟩ :=
        exists_ended (n := 4) hbegin rfl rfl
      refine ⟨s', hs', fun c' hc' => ?_, ?_⟩
      · rw [hcalls] at hc'
        rcases List.mem_append.mp hc' with hc' | hc'
        · exact hfinished c' hc'
        · rw [List.mem_singleton.mp hc']
          exact hstage
      · rw [hcalls, List.length_append, hlength]
        rfl

/-- After `2^64` calls the snapshot says that there was none. -/
theorem wrapped_count_lost :
    ∃ s k snapshot, machine.Reachable s ∧ s.Finished
      ∧ s.calls.length = 2 ^ 64
      ∧ machine.run (.snapshot :: List.replicate k (.read s.readers.length))
          s = some (s.withSnapshot snapshot)
      ∧ snapshot.count.toNat ≠ s.calls.length := by
  obtain ⟨s, hs, hfinished, hlength⟩ := exists_finished (2 ^ 64)
  obtain ⟨k, snapshot, hrun⟩ := snapshot_alone s
  refine ⟨s, k, snapshot, hs, hfinished, hlength, hrun, ?_⟩
  rw [hlength]
  exact Nat.ne_of_lt snapshot.count.toNat_lt

end AntRpc.Metrics.LatencyRecorder
