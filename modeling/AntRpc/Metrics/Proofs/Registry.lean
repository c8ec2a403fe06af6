/-
What holds of a registry after any calls, and what a call that is taken
back or refused leaves behind.

# Families

A family is never empty, so the front that `Register` looks at is there;
its entries agree with the front in kind and label keys and differ from
each other in their labels (`Family.WellFormed`).

# Apart

Two families differ in name, and neither name is the other's with a
summary suffix when that other is a summary (`Apart`). `Register` compares
with the fronts only; since the entries of a family are of one kind this is
as good as all. Stated over all entries, `Apart` survives every removal.
-/
import AntRpc.Metrics.Registry

namespace AntRpc.Metrics

open Lib
open Protocol (Bytes)

-- == invariant

structure Family.WellFormed (f : Family) : Prop where
  nonempty : f.entries ≠ []
  oneKind : ∀ e ∈ f.entries, ∀ e' ∈ f.entries,
    e.metric.kind = e'.metric.kind
  sameKeys : ∀ e ∈ f.entries, ∀ e' ∈ f.entries,
    sameLabelKeys e.labels e'.labels = true
  distinct : (f.entries.map Entry.labels).Nodup
  validName : validName f.name = true
  validKeys : ∀ e ∈ f.entries, ∀ item ∈ e.labels.items,
    Metrics.validName item.1 = true

/-- Families that can be exported together. -/
structure Apart (f g : Family) : Prop where
  name_ne : f.name ≠ g.name
  noConflict : ∀ e ∈ f.entries, ∀ e' ∈ g.entries,
    conflicts f.name e.metric.kind g.name e'.metric.kind = false

structure Consistent (families : List Family) : Prop where
  wellFormed : ∀ f ∈ families, f.WellFormed
  apart : families.Pairwise Apart

theorem conflicts_comm (a : Bytes) (ka : MetricKind) (b : Bytes)
    (kb : MetricKind) : conflicts a ka b kb = conflicts b kb a ka := by
  unfold conflicts
  congr 1
  funext suffix
  exact Bool.or_comm _ _

theorem Apart.symm {f g : Family} (h : Apart f g) : Apart g f where
  name_ne := Ne.symm h.name_ne
  noConflict e he e' he' := by
    rw [conflicts_comm]
    exact h.noConflict e' he' e he

theorem Consistent.tail {f : Family} {families : List Family}
    (h : Consistent (f :: families)) : Consistent families where
  wellFormed g hg := h.wellFormed g (List.mem_cons_of_mem f hg)
  apart := (List.pairwise_cons.mp h.apart).2

theorem Consistent.head_apart {f : Family} {families : List Family}
    (h : Consistent (f :: families)) : ∀ g ∈ families, Apart f g :=
  (List.pairwise_cons.mp h.apart).1

theorem Consistent.cons {f : Family} {families : List Family}
    (hf : f.WellFormed) (hapart : ∀ g ∈ families, Apart f g)
    (h : Consistent families) : Consistent (f :: families) where
  wellFormed := List.forall_mem_cons.mpr ⟨hf, h.wellFormed⟩
  apart := List.pairwise_cons.mpr ⟨hapart, h.apart⟩

-- == register

theorem sameLabelKeys_iff {a b : MetricLabels} :
    sameLabelKeys a b = true
      ↔ a.items.map Prod.fst = b.items.map Prod.fst := by
  rw [sameLabelKeys, beq_iff_eq]

/-- What an entry must be to join a family. -/
structure Family.Joins (f : Family) (entry : Entry) : Prop where
  kind : ∀ e ∈ f.entries, e.metric.kind = entry.metric.kind
  keys : ∀ e ∈ f.entries, sameLabelKeys e.labels entry.labels = true
  labels_ne : ∀ e ∈ f.entries, e.labels ≠ entry.labels

/-- The check of the family with the name, against its front, covers every
entry. -/
theorem Family.WellFormed.joins {f : Family} {name : Bytes} {entry : Entry}
    (hf : f.WellFormed) (hname : f.name = name)
    (h : f.admits name entry.metric.kind entry.labels = true) :
    f.Joins entry := by
  unfold Family.admits at h
  cases hentries : f.entries with
  | nil => exact absurd hentries hf.nonempty
  | cons front rest =>
      have hfront : front ∈ f.entries := by
        rw [hentries]
        exact List.mem_cons_self
      rw [hentries] at h
      simp only [if_pos hname, Bool.and_eq_true, beq_iff_eq,
        List.all_eq_true, bne_iff_ne] at h
      obtain ⟨⟨hkind, hkeys⟩, hlabels⟩ := h
      rw [sameLabelKeys_iff] at hkeys
      refine ⟨fun e he => ?_, fun e he => ?_, fun e he => ?_⟩
      · rw [hf.oneKind e he front hfront]
        exact hkind
      · have hsame := sameLabelKeys_iff.mp (hf.sameKeys e he front hfront)
        exact sameLabelKeys_iff.mpr (hsame.trans hkeys)
      · rw [hentries] at he
        exact hlabels e he

/-- The check of another family puts it apart from the new entry. -/
theorem Family.WellFormed.apart_new {f : Family} {name : Bytes}
    {entry : Entry} (hf : f.WellFormed) (hname : f.name ≠ name)
    (h : f.admits name entry.metric.kind entry.labels = true) :
    Apart f ⟨name, [entry]⟩ := by
  unfold Family.admits at h
  cases hentries : f.entries with
  | nil => exact absurd hentries hf.nonempty
  | cons front rest =>
      have hfront : front ∈ f.entries := by
        rw [hentries]
        exact List.mem_cons_self
      rw [hentries] at h
      simp only [if_neg hname, Bool.not_eq_true'] at h
      refine ⟨hname, fun e he e' he' => ?_⟩
      rw [List.mem_singleton.mp he', hf.oneKind e he front hfront]
      exact h

/-- The new entry is good on its own. -/
structure NewEntry (name : Bytes) (entry : Entry) : Prop where
  validName : validName name = true
  validKeys : ∀ item ∈ entry.labels.items, Metrics.validName item.1 = true

theorem NewEntry.wellFormed {name : Bytes} {entry : Entry}
    (h : NewEntry name entry) : Family.WellFormed ⟨name, [entry]⟩ where
  nonempty := List.cons_ne_nil _ _
  oneKind e he e' he' := by
    rw [List.mem_singleton.mp he, List.mem_singleton.mp he']
  sameKeys e he e' he' := by
    rw [List.mem_singleton.mp he, List.mem_singleton.mp he']
    exact sameLabelKeys_iff.mpr rfl
  distinct := List.nodup_singleton _
  validName := h.validName
  validKeys e he := by
    rw [List.mem_singleton.mp he]
    exact h.validKeys

theorem Family.Joins.wellFormed {f : Family} {entry : Entry}
    (h : f.Joins entry) (hf : f.WellFormed) (hnew : NewEntry f.name entry) :
    Family.WellFormed { f with entries := f.entries ++ [entry] } where
  nonempty := List.concat_ne_nil _ _
  oneKind := by
    have hkind : ∀ e ∈ f.entries ++ [entry],
        e.metric.kind = entry.metric.kind := by
      intro e he
      rcases List.mem_append.mp he with he | he
      · exact h.kind e he
      · rw [List.mem_singleton.mp he]
    exact fun e he e' he' => (hkind e he).trans (hkind e' he').symm
  sameKeys := by
    have hkeys : ∀ e ∈ f.entries ++ [entry],
        e.labels.items.map Prod.fst = entry.labels.items.map Prod.fst := by
      intro e he
      rcases List.mem_append.mp he with he | he
      · exact sameLabelKeys_iff.mp (h.keys e he)
      · rw [List.mem_singleton.mp he]
    exact fun e he e' he' =>
      sameLabelKeys_iff.mpr ((hkeys e he).trans (hkeys e' he').symm)
  distinct := by
    rw [List.map_append, List.map_singleton]
    refine List.nodup_append.mpr
      ⟨hf.distinct, List.nodup_singleton _, ?_⟩
    intro labels hlabels labels' hlabels'
    obtain ⟨e, he, rfl⟩ := List.mem_map.mp hlabels
    rw [List.mem_singleton.mp hlabels']
    exact h.labels_ne e he
  validName := hf.validName
  validKeys e he := by
    rcases List.mem_append.mp he with he | he
    · exact hf.validKeys e he
    · rw [List.mem_singleton.mp he]
      exact hnew.validKeys

/-- Apart from a family and from the new entry, so apart from both. -/
theorem Apart.push {f g : Family} {entry : Entry} (h : Apart f g)
    (hnew : Apart f ⟨g.name, [entry]⟩) :
    Apart f { g with entries := g.entries ++ [entry] } where
  name_ne := h.name_ne
  noConflict e he e' he' := by
    rcases List.mem_append.mp he' with he' | he'
    · exact h.noConflict e he e' he'
    · exact hnew.noConflict e he e' he'

/-- What a family must be for the new entry to be pushed. -/
def Family.Accepts (f : Family) (name : Bytes) (entry : Entry) : Prop :=
  (f.name = name → f.Joins entry)
    ∧ (f.name ≠ name → Apart f ⟨name, [entry]⟩)

theorem apart_pushEntry {f : Family} {name : Bytes} {entry : Entry}
    {families : List Family} (hapart : ∀ g ∈ families, Apart f g)
    (hnew : Apart f ⟨name, [entry]⟩) :
    ∀ g ∈ pushEntry name entry families, Apart f g := by
  induction families with
  | nil =>
      intro g hg
      rw [List.mem_singleton.mp hg]
      exact hnew
  | cons k families ih =>
      obtain ⟨hk, hrest⟩ := List.forall_mem_cons.mp hapart
      rw [pushEntry]
      by_cases hname : k.name = name
      · rw [if_pos hname]
        subst hname
        exact List.forall_mem_cons.mpr ⟨hk.push hnew, hrest⟩
      · rw [if_neg hname]
        exact List.forall_mem_cons.mpr ⟨hk, ih hrest⟩

theorem Consistent.push {name : Bytes} {entry : Entry}
    {families : List Family} (h : Consistent families)
    (hentry : NewEntry name entry)
    (haccepts : ∀ f ∈ families, f.Accepts name entry) :
    Consistent (pushEntry name entry families) := by
  induction families with
  | nil => exact .cons hentry.wellFormed nofun h
  | cons f families ih =>
      obtain ⟨hf, hrest⟩ := List.forall_mem_cons.mp haccepts
      have hwf := h.wellFormed f List.mem_cons_self
      rw [pushEntry]
      by_cases hname : f.name = name
      · rw [if_pos hname]
        subst hname
        refine .cons ((hf.1 rfl).wellFormed hwf hentry) (fun g hg => ?_) h.tail
        -- every other family was checked against the entry
        have hfg := h.head_apart g hg
        have hgnew := (hrest g hg).2 hfg.name_ne.symm
        exact (hfg.symm.push hgnew).symm
      · rw [if_neg hname]
        exact .cons hwf (apart_pushEntry h.head_apart (hf.2 hname))
          (ih h.tail hrest)

/-- `Register` passes all its checks and pushes, or does nothing. -/
theorem MetricRegistry.register_cases (r : MetricRegistry) (name : Bytes)
    (kind : MetricKind) (metric : Option Nat) (labels : MetricLabels) :
    r.register name kind metric labels = (r, false)
      ∨ ∃ address, validArguments r.namePrefix name labels = true
        ∧ (∀ f ∈ r.families,
          f.admits (r.namePrefix ++ name) kind labels = true)
        ∧ r.register name kind metric labels
          = ({ r with families := (pushEntry (r.namePrefix ++ name)
                ⟨labels, kind, address⟩ r.families) }, true) := by
  unfold MetricRegistry.register
  cases metric with
  | none => exact Or.inl rfl
  | some address =>
      dsimp only
      by_cases hchecks : (validArguments r.namePrefix name labels
          && r.families.all (·.admits (r.namePrefix ++ name) kind labels))
        = true
      · right
        rw [if_pos hchecks]
        obtain ⟨hvalid, hadmits⟩ := Bool.and_eq_true_iff.mp hchecks
        exact ⟨address, hvalid, List.all_eq_true.mp hadmits, rfl⟩
      · left
        rw [if_neg hchecks]

/-- What an accepted `Register` has found and done. -/
theorem MetricRegistry.register_accepted {r : MetricRegistry} {name : Bytes}
    {kind : MetricKind} {metric : Option Nat} {labels : MetricLabels}
    (hr : Consistent r.families)
    (h : (r.register name kind metric labels).2 = true) :
    ∃ address,
      NewEntry (r.namePrefix ++ name) ⟨labels, kind, address⟩
        ∧ (∀ f ∈ r.families,
          f.Accepts (r.namePrefix ++ name) ⟨labels, kind, address⟩)
        ∧ (r.register name kind metric labels).1
          = { r with families := (pushEntry (r.namePrefix ++ name)
                ⟨labels, kind, address⟩ r.families) } := by
  obtain hno | ⟨address, hvalid, hadmits, hyes⟩ :=
    r.register_cases name kind metric labels
  · rw [hno] at h
    cases h
  · simp only [validArguments, Bool.and_eq_true, List.all_eq_true] at hvalid
    refine ⟨address, ⟨hvalid.1.2, fun item hitem =>
      (hvalid.2 item hitem).1⟩, fun f hf => ?_, by rw [hyes]⟩
    have hwf := hr.wellFormed f hf
    have hadmit := hadmits f hf
    exact ⟨fun hname => hwf.joins hname hadmit,
      fun hname => hwf.apart_new hname hadmit⟩

-- == unregister

/-- Left of a family after a removal. -/
structure Family.Shrunk (g f : Family) : Prop where
  name : g.name = f.name
  entries : g.entries.Sublist f.entries
  nonempty : g.entries ≠ []

theorem Family.Shrunk.refl {f : Family} (h : f.entries ≠ []) : f.Shrunk f :=
  ⟨rfl, List.Sublist.refl _, h⟩

theorem Family.Shrunk.wellFormed {g f : Family} (h : g.Shrunk f)
    (hf : f.WellFormed) : g.WellFormed where
  nonempty := h.nonempty
  oneKind e he e' he' :=
    hf.oneKind e (h.entries.subset he) e' (h.entries.subset he')
  sameKeys e he e' he' :=
    hf.sameKeys e (h.entries.subset he) e' (h.entries.subset he')
  distinct := (h.entries.map Entry.labels).nodup hf.distinct
  validName := by
    rw [h.name]
    exact hf.validName
  validKeys e he := hf.validKeys e (h.entries.subset he)

theorem Family.Shrunk.apart {g f k : Family} (h : g.Shrunk f)
    (hk : Apart k f) : Apart k g where
  name_ne := by
    rw [h.name]
    exact hk.name_ne
  noConflict e he e' he' := by
    rw [h.name]
    exact hk.noConflict e he e' (h.entries.subset he')

theorem eraseEntry_sublist {labels : MetricLabels}
    {entries left : List Entry} (h : eraseEntry labels entries = some left) :
    left.Sublist entries := by
  obtain ⟨-, h⟩ := Option.ite_none_right_eq_some.mp h
  rw [← Option.some.inj h]
  exact List.eraseP_sublist

/-- Every family that is left was there, with no more entries. -/
theorem removeEntry_shrunk {name : Bytes} {labels : MetricLabels}
    {families left : List Family} (h : Consistent families)
    (hleft : removeEntry name labels families = some left) :
    ∀ g ∈ left, ∃ f ∈ families, g.Shrunk f := by
  induction families generalizing left with
  | nil => cases hleft
  | cons f families ih =>
      have hkept : ∀ g ∈ families, ∃ k ∈ f :: families, g.Shrunk k :=
        fun g hg => ⟨g, List.mem_cons_of_mem f hg,
          .refl (h.tail.wellFormed g hg).nonempty⟩
      rw [removeEntry] at hleft
      by_cases hname : f.name = name
      · rw [if_pos hname] at hleft
        obtain ⟨entries, herase, rfl⟩ := Option.map_eq_some_iff.mp hleft
        by_cases hempty : entries = []
        · rw [if_pos hempty]
          exact hkept
        · rw [if_neg hempty]
          refine List.forall_mem_cons.mpr ⟨⟨f, List.mem_cons_self, ?_⟩, hkept⟩
          exact ⟨rfl, eraseEntry_sublist herase, hempty⟩
      · rw [if_neg hname] at hleft
        obtain ⟨rest, hrest, rfl⟩ := Option.map_eq_some_iff.mp hleft
        refine List.forall_mem_cons.mpr ⟨⟨f, List.mem_cons_self,
          .refl (h.wellFormed f List.mem_cons_self).nonempty⟩, ?_⟩
        intro g hg
        obtain ⟨k, hk, hgk⟩ := ih h.tail hrest g hg
        exact ⟨k, List.mem_cons_of_mem f hk, hgk⟩

theorem Consistent.remove {name : Bytes} {labels : MetricLabels}
    {families left : List Family} (h : Consistent families)
    (hleft : removeEntry name labels families = some left) :
    Consistent left := by
  induction families generalizing left with
  | nil => cases hleft
  | cons f families ih =>
      have hwf := h.wellFormed f List.mem_cons_self
      rw [removeEntry] at hleft
      by_cases hname : f.name = name
      · rw [if_pos hname] at hleft
        obtain ⟨entries, herase, rfl⟩ := Option.map_eq_some_iff.mp hleft
        by_cases hempty : entries = []
        · rw [if_pos hempty]
          exact h.tail
        · rw [if_neg hempty]
          have hshrunk : Family.Shrunk { f with entries := entries } f :=
            ⟨rfl, eraseEntry_sublist herase, hempty⟩
          exact .cons (hshrunk.wellFormed hwf)
            (fun g hg => (hshrunk.apart (h.head_apart g hg).symm).symm) h.tail
      · rw [if_neg hname] at hleft
        obtain ⟨rest, hrest, rfl⟩ := Option.map_eq_some_iff.mp hleft
        refine .cons hwf (fun g hg => ?_) (ih h.tail hrest)
        obtain ⟨k, hk, hgk⟩ := removeEntry_shrunk h.tail hrest g hg
        exact hgk.apart (h.head_apart k hk)

-- == runs

theorem MetricRegistry.register_rejected {r : MetricRegistry} {name : Bytes}
    {kind : MetricKind} {metric : Option Nat} {labels : MetricLabels}
    (h : (r.register name kind metric labels).2 = false) :
    (r.register name kind metric labels).1 = r := by
  obtain hno | ⟨address, -, -, hyes⟩ :=
    r.register_cases name kind metric labels
  · rw [hno]
  · rw [hyes] at h
    cases h

theorem MetricRegistry.unregister_rejected {r : MetricRegistry}
    {name : Bytes} {labels : MetricLabels}
    (h : (r.unregister name labels).2 = false) :
    (r.unregister name labels).1 = r := by
  unfold MetricRegistry.unregister at h ⊢
  cases hleft : removeEntry (r.namePrefix ++ name) labels r.families with
  | none => rfl
  | some left =>
      rw [hleft] at h
      cases h

/-- A refused call changes nothing. -/
theorem call_rejected {a : Action} {r : MetricRegistry}
    (h : (call a r).2 = false) : (call a r).1 = r := by
  cases a with
  | register name kind metric labels => exact r.register_rejected h
  | unregister name labels => exact r.unregister_rejected h

theorem consistent_call {r : MetricRegistry} (a : Action)
    (h : Consistent r.families) : Consistent (call a r).1.families := by
  by_cases hcall : (call a r).2 = true
  · cases a with
    | register name kind metric labels =>
        obtain ⟨address, hentry, haccepts, hpush⟩ :=
          r.register_accepted h hcall
        show Consistent (r.register name kind metric labels).1.families
        rw [hpush]
        exact h.push hentry haccepts
    | unregister name labels =>
        show Consistent (r.unregister name labels).1.families
        unfold MetricRegistry.unregister
        cases hleft : removeEntry (r.namePrefix ++ name) labels
            r.families with
        | none => exact h
        | some left => exact h.remove hleft
  · rw [call_rejected (Bool.eq_false_of_not_eq_true hcall)]
    exact h

/-- After any calls the registry is consistent. -/
theorem consistent_of_reachable {r : MetricRegistry}
    (h : machine.Reachable r) : Consistent r.families := by
  refine h.invariant (I := fun r => Consistent r.families) ?_ ?_
  · rintro r ⟨namePrefix, rfl⟩
    exact ⟨nofun, List.Pairwise.nil⟩
  · intro r r' a _ hr _ happly
    obtain rfl := Option.some.inj happly
    exact consistent_call a hr

-- == taking back

theorem eraseEntry_push {entries : List Entry} {entry : Entry}
    (h : ∀ e ∈ entries, e.labels ≠ entry.labels) :
    eraseEntry entry.labels (entries ++ [entry]) = some entries := by
  have hany : (entries ++ [entry]).any (·.labels == entry.labels) = true :=
    List.any_eq_true.mpr ⟨entry, List.mem_append_right _
      List.mem_cons_self, beq_self_eq_true _⟩
  have herase : (entries ++ [entry]).eraseP (·.labels == entry.labels)
      = entries := by
    rw [List.eraseP_append_right _ fun e he => ?_]
    · show entries ++ List.eraseP (·.labels == entry.labels) [entry] = _
      rw [List.eraseP, beq_self_eq_true, cond_true, List.append_nil]
    · exact fun heq => h e he (beq_iff_eq.mp heq)
  rw [eraseEntry, if_pos hany, herase]

/-- Removing what was pushed gives back the families. -/
theorem removeEntry_pushEntry {name : Bytes} {entry : Entry}
    {families : List Family} (h : Consistent families)
    (haccepts : ∀ f ∈ families, f.Accepts name entry) :
    removeEntry name entry.labels (pushEntry name entry families)
      = some families := by
  induction families with
  | nil =>
      rw [pushEntry, removeEntry, if_pos rfl]
      show (eraseEntry entry.labels ([] ++ [entry])).map _ = _
      rw [eraseEntry_push fun e he => absurd he List.not_mem_nil]
      rfl
  | cons f families ih =>
      obtain ⟨hf, hrest⟩ := List.forall_mem_cons.mp haccepts
      rw [pushEntry]
      by_cases hname : f.name = name
      · rw [if_pos hname, removeEntry, if_pos hname,
          eraseEntry_push (hf.1 hname).labels_ne, Option.map_some,
          if_neg (h.wellFormed f List.mem_cons_self).nonempty]
      · rw [if_neg hname, removeEntry, if_neg hname, ih h.tail hrest]
        rfl

/-- An accepted `Register` is undone by its `Unregister`. -/
theorem MetricRegistry.unregister_register {r : MetricRegistry}
    {name : Bytes} {kind : MetricKind} {metric : Option Nat}
    {labels : MetricLabels} (hr : Consistent r.families)
    (h : (r.register name kind metric labels).2 = true) :
    (r.register name kind metric labels).1.unregister name labels
      = (r, true) := by
  obtain ⟨address, -, haccepts, hpush⟩ := r.register_accepted hr h
  have hremove := removeEntry_pushEntry hr haccepts
  rw [hpush]
  unfold MetricRegistry.unregister
  rw [hremove]

end AntRpc.Metrics
