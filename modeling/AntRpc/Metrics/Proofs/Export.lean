/-
The text of a consistent registry is unambiguous.

# Names

A family takes its name and, if it is a summary, its name with each of the
four suffixes (`reserved`). Families that are apart reserve different
names: two suffixes differ in their last byte, so two summaries can only
meet in the same suffix, and the other meetings are what `Conflicts` looks
for. Every sample and every `# TYPE` line has a reserved name.

# Order

A `# TYPE` line is written when the name changes. The samples are sorted by
name, so a name that has changed does not come back.

# Bytes

A series is written as its name and its labels. Names and keys hold no
byte of the punctuation, and a label value ends at its first bare quote, so
different series are written differently.
-/
import AntRpc.Text.Proofs.Escape
import AntRpc.Metrics.Proofs.Registry

namespace AntRpc.Metrics

open Lib Text
open Protocol (Bytes)

-- == order

theorem lessBytes_comparator : Comparator lessBytes := by
  have hbyte : Comparator fun a b : UInt8 => decide (a < b) :=
    { irrefl := fun a => decide_eq_false (UInt8.lt_irrefl a)
      trans := fun a b c hab hbc => decide_eq_true
        (UInt8.lt_trans (of_decide_eq_true hab) (of_decide_eq_true hbc))
      antisymm := fun a b hab hba => UInt8.le_antisymm
        (UInt8.not_lt.mp (of_decide_eq_false hba))
        (UInt8.not_lt.mp (of_decide_eq_false hab)) }
  exact hbyte.lex

theorem MetricLabels.ext {a b : MetricLabels} (h : a.items = b.items) :
    a = b := by
  cases a
  cases b
  cases h
  rfl

theorem lessLabels_comparator : Comparator lessLabels := by
  have hitems := (lessBytes_comparator.pair lessBytes_comparator).lex
  exact
    { irrefl := fun a => hitems.irrefl a.items
      trans := fun a b c => hitems.trans a.items b.items c.items
      antisymm := fun a b hab hba =>
        MetricLabels.ext (hitems.antisymm a.items b.items hab hba) }

/-- What `Snapshot` sorts by. -/
def MetricSnapshot.key (s : MetricSnapshot) : Bytes × MetricLabels :=
  (s.name, s.labels)

theorem sampleLess_eq (a b : MetricSnapshot) :
    sampleLess a b = pairLess lessBytes lessLabels a.key b.key := by
  show (lessBytes a.name b.name
      || (a.name == b.name && lessLabels a.labels b.labels))
    = (lessBytes a.name b.name
      || (!lessBytes b.name a.name && lessLabels a.labels b.labels))
  cases hab : lessBytes a.name b.name with
  | true => rfl
  | false =>
      congr 2
      by_cases hname : a.name = b.name
      · rw [hname, beq_self_eq_true, lessBytes_comparator.irrefl]
        rfl
      · rw [beq_eq_false_iff_ne.mpr hname]
        cases hba : lessBytes b.name a.name with
        | true => rfl
        | false =>
            exact absurd (lessBytes_comparator.antisymm _ _ hab hba) hname

/-- The samples come in the order of their names. -/
theorem MetricRegistry.snapshot_sorted (r : MetricRegistry)
    (readings : Readings) :
    (r.snapshot readings).Pairwise
      fun a b => lessBytes b.name a.name = false := by
  have hsorted := (lessBytes_comparator.pair lessLabels_comparator).sorted
    MetricSnapshot.key (r.families.flatMap (·.samples readings))
  unfold MetricRegistry.snapshot
  rw [show (fun a b : MetricSnapshot => !sampleLess b a)
      = fun a b => !pairLess lessBytes lessLabels b.key a.key from
    funext fun a => funext fun b => by rw [sampleLess_eq]]
  exact hsorted.imp fun hab => (Bool.or_eq_false_iff.mp hab).1

theorem MetricRegistry.snapshot_perm (r : MetricRegistry)
    (readings : Readings) :
    (r.snapshot readings).Perm (r.families.flatMap (·.samples readings)) :=
  List.mergeSort_perm _ _

-- == names

/-- The names a metric of a kind takes. -/
def reserved (name : Bytes) (kind : MetricKind) : List Bytes :=
  name :: if kind = .latency then summarySuffixes.map (name ++ ·) else []

theorem mem_reserved {name x : Bytes} {kind : MetricKind} :
    x ∈ reserved name kind
      ↔ x = name
        ∨ kind = .latency ∧ ∃ suffix ∈ summarySuffixes, name ++ suffix = x := by
  unfold reserved
  by_cases hkind : kind = .latency
  · rw [if_pos hkind, List.mem_cons, List.mem_map]
    exact ⟨fun h => h.imp_right fun h => ⟨hkind, h⟩,
      fun h => h.imp_right And.right⟩
  · rw [if_neg hkind, List.mem_singleton]
    exact ⟨Or.inl, fun h => h.resolve_right fun h => hkind h.1⟩

theorem reserved_nodup (name : Bytes) (kind : MetricKind) :
    (reserved name kind).Nodup := by
  unfold reserved
  by_cases hkind : kind = .latency
  · rw [if_pos hkind]
    refine List.nodup_cons.mpr ⟨fun hmem => ?_,
      List.Nodup.map (fun a b => List.append_cancel_left) (by decide)⟩
    obtain ⟨suffix, hs, hname⟩ := List.mem_map.mp hmem
    rw [List.append_cancel_left
      (hname.trans (List.append_nil name).symm)] at hs
    revert hs
    decide
  · rw [if_neg hkind]
    exact List.nodup_singleton _

/-- A suffix is known by its last byte. -/
theorem summarySuffixes_last : ∀ a ∈ summarySuffixes, ∀ b ∈ summarySuffixes,
    a.getLast? = b.getLast? → a = b := by
  decide

theorem summarySuffixes_ne_nil : ∀ a ∈ summarySuffixes, a ≠ [] := by
  decide

/-- Two names with a suffix meet only if they are the same. -/
theorem append_suffix_inj {a b suffix suffix' : Bytes}
    (hs : suffix ∈ summarySuffixes) (hs' : suffix' ∈ summarySuffixes)
    (h : a ++ suffix = b ++ suffix') : a = b := by
  have hlast := congrArg List.getLast? h
  rw [List.getLast?_append_of_ne_nil _ (summarySuffixes_ne_nil _ hs),
    List.getLast?_append_of_ne_nil _ (summarySuffixes_ne_nil _ hs')]
    at hlast
  rw [summarySuffixes_last _ hs _ hs' hlast] at h
  exact List.append_cancel_right h

theorem conflicts_of_suffix {a b suffix : Bytes} {kb : MetricKind}
    (hs : suffix ∈ summarySuffixes) (h : a ++ suffix = b) :
    conflicts a .latency b kb = true := by
  refine List.any_eq_true.mpr ⟨suffix, hs, ?_⟩
  rw [h, beq_self_eq_true, beq_self_eq_true]
  rfl

/-- Without a conflict no name is taken twice. -/
theorem reserved_disjoint {a b : Bytes} {ka kb : MetricKind} (hne : a ≠ b)
    (hconflict : conflicts a ka b kb = false) :
    (reserved a ka).Disjoint (reserved b kb) := by
  intro x hxa hxb
  rcases mem_reserved.mp hxa with rfl | ⟨rfl, suffix, hs, rfl⟩
  · rcases mem_reserved.mp hxb with rfl | ⟨rfl, suffix, hs, hx⟩
    · exact hne rfl
    · rw [conflicts_comm, conflicts_of_suffix hs hx] at hconflict
      cases hconflict
  · rcases mem_reserved.mp hxb with hx | ⟨rfl, suffix', hs', hx⟩
    · rw [conflicts_of_suffix hs hx] at hconflict
      cases hconflict
    · exact hne (append_suffix_inj hs hs' hx.symm)

-- == lines

def MetricValue.kind : MetricValue → MetricKind
  | .counter _ => .counter
  | .gauge _ => .gauge
  | .latency _ => .latency

theorem Readings.value_kind (readings : Readings) (name : Bytes)
    (e : Entry) : (readings.value name e).kind = e.metric.kind := by
  unfold Readings.value
  cases e.metric.kind <;> rfl

/-- The exported name and the labels of a sample line. -/
def Line.series? : Line → Option (Bytes × MetricLabels)
  | .type _ _ => none
  | .sample name labels _ => some (name, labels)

/-- The name a `# TYPE` line is for. -/
def Line.typed? : Line → Option Bytes
  | .type name _ => some name
  | .sample _ _ _ => none

def MetricSnapshot.series (s : MetricSnapshot) :
    List (Bytes × MetricLabels) :=
  (sampleLines s).filterMap Line.series?

def MetricSnapshot.typed (s : MetricSnapshot) : List Bytes :=
  (typeLines s).filterMap Line.typed?

theorem MetricSnapshot.series_sublist (s : MetricSnapshot) :
    (s.series.map Prod.fst).Sublist (reserved s.name s.value.kind) := by
  unfold MetricSnapshot.series sampleLines
  cases s.value with
  | counter value =>
      show [s.name ++ []].Sublist [s.name]
      rw [List.append_nil]
  | gauge value =>
      show [s.name ++ []].Sublist [s.name]
      rw [List.append_nil]
  | latency value => exact List.sublist_cons_self _ _

theorem MetricSnapshot.series_labels {s : MetricSnapshot}
    {p : Bytes × MetricLabels} (h : p ∈ s.series) : p.2 = s.labels := by
  obtain ⟨line, hline, hp⟩ := List.mem_filterMap.mp h
  unfold sampleLines at hline
  cases hvalue : s.value with
  | counter value | gauge value =>
      rw [hvalue] at hline
      rw [List.mem_singleton.mp hline] at hp
      rw [← Option.some.inj hp]
  | latency value =>
      rw [hvalue] at hline
      simp only [List.mem_cons, List.not_mem_nil, or_false] at hline
      rcases hline with rfl | rfl | rfl | rfl <;>
        rw [← Option.some.inj hp]

theorem MetricSnapshot.typed_sublist (s : MetricSnapshot) :
    s.typed.Sublist (reserved s.name s.value.kind) := by
  unfold MetricSnapshot.typed typeLines
  cases s.value with
  | counter value => exact List.Sublist.refl _
  | gauge value => exact List.Sublist.refl _
  | latency value =>
      refine List.Sublist.cons_cons _ ?_
      exact (show ([ascii "_min", ascii "_max"]).Sublist
        summarySuffixes by decide).map (s.name ++ ·)

/-- The names of a sample line are among its family's. -/
theorem MetricSnapshot.mem_series {s : MetricSnapshot}
    {p : Bytes × MetricLabels} (h : p ∈ s.series) :
    p.1 ∈ reserved s.name s.value.kind :=
  s.series_sublist.subset (List.mem_map_of_mem h)

theorem MetricSnapshot.series_nodup (s : MetricSnapshot) :
    s.series.Nodup :=
  List.Nodup.of_map _ (s.series_sublist.nodup (reserved_nodup _ _))

theorem MetricSnapshot.typed_nodup (s : MetricSnapshot) :
    s.typed.Nodup :=
  s.typed_sublist.nodup (reserved_nodup _ _)

-- == series

theorem series?_typeLines (s : MetricSnapshot) :
    (typeLines s).filterMap Line.series? = [] := by
  unfold typeLines
  cases s.value <;> rfl

theorem typed?_sampleLines (s : MetricSnapshot) :
    (sampleLines s).filterMap Line.typed? = [] := by
  unfold sampleLines
  cases s.value <;> rfl

/-- The loop writes every sample once. -/
theorem series?_linesFrom (previous : Bytes) (samples : List MetricSnapshot) :
    (linesFrom previous samples).filterMap Line.series?
      = samples.flatMap MetricSnapshot.series := by
  induction samples generalizing previous with
  | nil => rfl
  | cons s samples ih =>
      rw [linesFrom, List.filterMap_append, List.filterMap_append, ih,
        List.flatMap_cons]
      by_cases hname : previous ≠ s.name
      · rw [if_pos hname, series?_typeLines]
        rfl
      · rw [if_neg hname]
        rfl

/-- Samples of which one can tell the lines apart. -/
def Told (s s' : MetricSnapshot) : Prop :=
  (s.name ≠ s'.name →
      (reserved s.name s.value.kind).Disjoint
        (reserved s'.name s'.value.kind))
    ∧ (s.name = s'.name → s.labels ≠ s'.labels)

theorem Told.symm {s s' : MetricSnapshot} (h : Told s s') : Told s' s :=
  ⟨fun hname => (h.1 hname.symm).symm, fun hname => (h.2 hname.symm).symm⟩

theorem Told.series_disjoint {s s' : MetricSnapshot} (h : Told s s') :
    s.series.Disjoint s'.series := by
  intro p hp hp'
  by_cases hname : s.name = s'.name
  · exact h.2 hname ((s.series_labels hp).symm.trans (s'.series_labels hp'))
  · exact h.1 hname (s.mem_series hp) (s'.mem_series hp')

theorem Consistent.told {families : List Family} (h : Consistent families)
    (readings : Readings) :
    (families.flatMap (·.samples readings)).Pairwise Told := by
  refine List.pairwise_flatMap.mpr ⟨fun f hf => ?_, ?_⟩
  · -- within a family the labels differ
    have hdistinct := List.pairwise_map.mp (h.wellFormed f hf).distinct
    refine List.pairwise_map.mpr (hdistinct.imp fun hlabels => ?_)
    exact ⟨fun hname => absurd rfl hname, fun _ => hlabels⟩
  · refine h.apart.imp fun {f g} hfg s hs s' hs' => ?_
    obtain ⟨e, he, rfl⟩ := List.mem_map.mp hs
    obtain ⟨e', he', rfl⟩ := List.mem_map.mp hs'
    refine ⟨fun hname => ?_, fun hname => absurd hname hfg.name_ne⟩
    refine reserved_disjoint hname ?_
    show conflicts f.name (readings.value f.name e).kind g.name
      (readings.value g.name e').kind = false
    rw [readings.value_kind, readings.value_kind]
    exact hfg.noConflict e he e' he'

/-- No two sample lines are for the same series. -/
theorem MetricRegistry.series_nodup {r : MetricRegistry}
    (h : Consistent r.families) (readings : Readings) :
    ((r.prometheusLines readings).filterMap Line.series?).Nodup := by
  unfold MetricRegistry.prometheusLines
  rw [series?_linesFrom]
  have hperm : ((r.snapshot readings).flatMap MetricSnapshot.series).Perm
      ((r.families.flatMap (·.samples readings)).flatMap
        MetricSnapshot.series) :=
    (r.snapshot_perm readings).flatMap_right _
  refine hperm.nodup_iff.mpr (List.nodup_flatMap.mpr
    ⟨fun s _ => s.series_nodup, ?_⟩)
  exact (h.told readings).imp fun hss' => hss'.series_disjoint

-- == types

/-- In order, a name that was left behind does not come back: every type
line is for a sample of a new name, and none is written twice. -/
theorem typed?_linesFrom {previous : Bytes} {samples : List MetricSnapshot}
    (hprevious : ∀ s ∈ samples, lessBytes s.name previous = false)
    (hsorted : samples.Pairwise
      fun a b => lessBytes b.name a.name = false)
    (htold : samples.Pairwise Told) :
    ((linesFrom previous samples).filterMap Line.typed?).Nodup
      ∧ ∀ x ∈ (linesFrom previous samples).filterMap Line.typed?,
        ∃ s ∈ samples, s.name ≠ previous ∧ x ∈ s.typed := by
  induction samples generalizing previous with
  | nil => exact ⟨List.nodup_nil, nofun⟩
  | cons s samples ih =>
      obtain ⟨hsorted_head, hsorted⟩ := List.pairwise_cons.mp hsorted
      obtain ⟨htold_head, htold⟩ := List.pairwise_cons.mp htold
      obtain ⟨hnodup, hmem⟩ := ih hsorted_head hsorted htold
      rw [linesFrom, List.filterMap_append, List.filterMap_append,
        typed?_sampleLines, List.append_nil]
      by_cases hname : previous ≠ s.name
      · rw [if_pos hname]
        refine ⟨List.nodup_append'.mpr ⟨s.typed_nodup, hnodup, ?_⟩, ?_⟩
        · intro x hx hx'
          obtain ⟨s', hs', hne, hx'⟩ := hmem x hx'
          exact (htold_head s' hs').1 (Ne.symm hne)
            (s.typed_sublist.subset hx) (s'.typed_sublist.subset hx')
        · intro x hx
          rcases List.mem_append.mp hx with hx | hx
          · exact ⟨s, List.mem_cons_self, Ne.symm hname, hx⟩
          · obtain ⟨s', hs', hne, hx⟩ := hmem x hx
            refine ⟨s', List.mem_cons_of_mem s hs', fun hback => ?_, hx⟩
            -- the name before `s` would be between it and itself
            have hbetween := hsorted_head s' hs'
            rw [hback] at hbetween
            exact hname (lessBytes_comparator.antisymm _ _ hbetween
              (hprevious s List.mem_cons_self))
      · rw [if_neg hname]
        rw [ne_eq, not_not] at hname
        refine ⟨hnodup, fun x hx => ?_⟩
        obtain ⟨s', hs', hne, hx⟩ := hmem x hx
        exact ⟨s', List.mem_cons_of_mem s hs', by rwa [hname], hx⟩

/-- No name gets two `# TYPE` lines. -/
theorem MetricRegistry.typed_nodup {r : MetricRegistry}
    (h : Consistent r.families) (readings : Readings) :
    ((r.prometheusLines readings).filterMap Line.typed?).Nodup := by
  have htold : (r.snapshot readings).Pairwise Told :=
    (r.snapshot_perm readings).symm.pairwise (h.told readings)
      fun hss' => hss'.symm
  refine (typed?_linesFrom (fun s _ => ?_) (r.snapshot_sorted readings)
    htold).1
  cases s.name <;> rfl

-- == bytes

/-- A byte of a name. -/
def nameByte (c : UInt8) : Bool := letter c || digit c

/-- All bytes are a name's. -/
def NameBytes (text : Bytes) : Prop := ∀ b ∈ text, nameByte b = true

theorem nameBytes_of_valid {name : Bytes} (h : validName name = true) :
    NameBytes name := by
  cases name with
  | nil => exact nofun
  | cons c name => exact List.all_eq_true.mp (Bool.and_eq_true_iff.mp h).2

theorem nameBytes_suffix : ∀ suffix ∈ summarySuffixes, NameBytes suffix := by
  unfold NameBytes
  decide +kernel

theorem nameBytes_reserved {name x : Bytes} {kind : MetricKind}
    (hname : NameBytes name) (h : x ∈ reserved name kind) : NameBytes x := by
  rcases mem_reserved.mp h with rfl | ⟨-, suffix, hs, rfl⟩
  · exact hname
  · intro b hb
    rcases List.mem_append.mp hb with hb | hb
    · exact hname b hb
    · exact nameBytes_suffix suffix hs b hb

/-- A byte's word does not begin with the quote that ends the value. -/
theorem labelCode_head (c : UInt8) :
    (labelCode.encode c).head? ≠ some doubleQuote := by
  show (labelByte c).head? ≠ some doubleQuote
  obtain ⟨-, h⟩ | ⟨-, h⟩ | ⟨hplain, -, h⟩ := labelByte_cases c
  · rw [h]
    decide
  · rw [h]
    show some backslash ≠ some doubleQuote
    decide
  · rw [h]
    exact fun hhead => hplain.1 (Option.some.inj hhead)

theorem writeItem_append (item : Bytes × Bytes) (rest : Bytes) :
    writeItem item ++ rest
      = item.1 ++ 61 :: doubleQuote
        :: (item.2.flatMap labelCode.encode ++ doubleQuote :: rest) := by
  rw [writeItem, writeLabel_eq, List.append_assoc, List.append_assoc,
    List.append_assoc]
  rfl

/-- A label is read apart from what follows it. -/
theorem writeItem_injective {item item' : Bytes × Bytes}
    {rest rest' : Bytes} (hkey : NameBytes item.1)
    (hkey' : NameBytes item'.1)
    (h : writeItem item ++ rest = writeItem item' ++ rest') :
    item = item' ∧ rest = rest' := by
  rw [writeItem_append, writeItem_append] at h
  have hequals : ∀ (text : Bytes) (b : UInt8),
      (61 :: text).head? = some b → nameByte b = false := by
    intro text b hb
    rw [← Option.some.inj hb]
    rfl
  obtain ⟨hkeys, htext⟩ :=
    span_injective hkey hkey' (hequals _) (hequals _) h
  obtain ⟨hvalues, hrest⟩ := labelCode.delimited_injective labelCode_head
    (List.cons.inj (List.cons.inj htext).2).2
  exact ⟨Prod.ext hkeys hvalues, hrest⟩

/-- So are the labels after a comma. -/
theorem writeItems_injective {items items' : List (Bytes × Bytes)}
    (hkeys : ∀ item ∈ items, NameBytes item.1)
    (hkeys' : ∀ item ∈ items', NameBytes item.1)
    (h : items.flatMap (fun item => ascii "," ++ writeItem item)
        ++ ascii "\x7d"
      = items'.flatMap (fun item => ascii "," ++ writeItem item)
        ++ ascii "\x7d") :
    items = items' := by
  induction items generalizing items' with
  | nil =>
      cases items' with
      | nil => rfl
      | cons item' items' => exact absurd (List.cons.inj h).1 (by decide)
  | cons item items ih =>
      cases items' with
      | nil => exact absurd (List.cons.inj h).1 (by decide)
      | cons item' items' =>
          rw [List.flatMap_cons, List.flatMap_cons, List.append_assoc,
            List.append_assoc, List.append_assoc, List.append_assoc] at h
          obtain ⟨hkey, hrest⟩ := List.forall_mem_cons.mp hkeys
          obtain ⟨hkey', hrest'⟩ := List.forall_mem_cons.mp hkeys'
          obtain ⟨hitem, htext⟩ :=
            writeItem_injective hkey hkey' (List.append_cancel_left h)
          rw [hitem, ih hrest hrest' htext]

/-- The keys of the labels are names. -/
def MetricLabels.Named (labels : MetricLabels) : Prop :=
  ∀ item ∈ labels.items, NameBytes item.1

theorem writeLabels_injective {labels labels' : MetricLabels}
    (h : labels.Named) (h' : labels'.Named)
    (htext : writeLabels labels = writeLabels labels') :
    labels = labels' := by
  refine MetricLabels.ext ?_
  unfold writeLabels at htext
  unfold MetricLabels.Named at h h'
  cases hitems : labels.items with
  | nil =>
      cases hitems' : labels'.items with
      | nil => rfl
      | cons item' items' =>
          rw [hitems, hitems'] at htext
          cases htext
  | cons item items =>
      cases hitems' : labels'.items with
      | nil =>
          rw [hitems, hitems'] at htext
          cases htext
      | cons item' items' =>
          rw [hitems] at h htext
          rw [hitems'] at h' htext
          simp only [List.append_assoc] at htext
          obtain ⟨hkey, hrest⟩ := List.forall_mem_cons.mp h
          obtain ⟨hkey', hrest'⟩ := List.forall_mem_cons.mp h'
          obtain ⟨hitem, htail⟩ :=
            writeItem_injective hkey hkey' (List.append_cancel_left htext)
          rw [hitem, writeItems_injective hrest hrest' htail]

theorem writeLabels_head (labels : MetricLabels) (b : UInt8)
    (h : (writeLabels labels).head? = some b) : nameByte b = false := by
  unfold writeLabels at h
  cases hitems : labels.items with
  | nil =>
      rw [hitems] at h
      cases h
  | cons item items =>
      rw [hitems] at h
      rw [← Option.some.inj h]
      rfl

/-- Different series are written differently. -/
theorem writeSeries_injective {p p' : Bytes × MetricLabels}
    (hname : NameBytes p.1) (hname' : NameBytes p'.1) (hkeys : p.2.Named)
    (hkeys' : p'.2.Named)
    (h : writeSeries p.1 p.2 = writeSeries p'.1 p'.2) : p = p' := by
  obtain ⟨hnames, hlabels⟩ := span_injective hname hname'
    (writeLabels_head p.2) (writeLabels_head p'.2) h
  exact Prod.ext hnames (writeLabels_injective hkeys hkeys' hlabels)

-- == named lines

/-- All names of a line are names. -/
def Line.Named : Line → Prop
  | .type name _ => NameBytes name
  | .sample name labels _ => NameBytes name ∧ labels.Named

theorem MetricSnapshot.named_lines {s : MetricSnapshot}
    (hname : NameBytes s.name) (hkeys : s.labels.Named) :
    ∀ line ∈ typeLines s ++ sampleLines s, line.Named := by
  intro line hline
  rcases List.mem_append.mp hline with hline | hline
  · cases line with
    | type name typeName =>
        have hmem : name ∈ s.typed :=
          List.mem_filterMap.mpr ⟨_, hline, rfl⟩
        exact nameBytes_reserved hname (s.typed_sublist.subset hmem)
    | sample name labels value =>
        have hmem : (name, labels)
            ∈ (typeLines s).filterMap Line.series? :=
          List.mem_filterMap.mpr ⟨_, hline, rfl⟩
        rw [series?_typeLines] at hmem
        cases hmem
  · cases line with
    | type name typeName =>
        have hmem : name ∈ (sampleLines s).filterMap Line.typed? :=
          List.mem_filterMap.mpr ⟨_, hline, rfl⟩
        rw [typed?_sampleLines] at hmem
        cases hmem
    | sample name labels value =>
        have hmem : (name, labels) ∈ s.series :=
          List.mem_filterMap.mpr ⟨_, hline, rfl⟩
        have hlabels : labels = s.labels := s.series_labels hmem
        exact ⟨nameBytes_reserved hname (s.mem_series hmem),
          hlabels ▸ hkeys⟩

theorem mem_linesFrom {previous : Bytes} {samples : List MetricSnapshot}
    {line : Line} (h : line ∈ linesFrom previous samples) :
    ∃ s ∈ samples, line ∈ typeLines s ++ sampleLines s := by
  induction samples generalizing previous with
  | nil => cases h
  | cons s samples ih =>
      rw [linesFrom] at h
      rcases List.mem_append.mp h with h | h
      · refine ⟨s, List.mem_cons_self, ?_⟩
        by_cases hname : previous ≠ s.name
        · rwa [if_pos hname] at h
        · rw [if_neg hname] at h
          exact List.mem_append_right _ h
      · obtain ⟨s', hs', hline⟩ := ih h
        exact ⟨s', List.mem_cons_of_mem s hs', hline⟩

theorem MetricRegistry.mem_snapshot {r : MetricRegistry}
    (h : Consistent r.families) {readings : Readings} {s : MetricSnapshot}
    (hs : s ∈ r.snapshot readings) : NameBytes s.name ∧ s.labels.Named := by
  obtain ⟨f, hf, hs⟩ := List.mem_flatMap.mp
    ((r.snapshot_perm readings).mem_iff.mp hs)
  obtain ⟨e, he, rfl⟩ := List.mem_map.mp hs
  have hwf := h.wellFormed f hf
  exact ⟨nameBytes_of_valid hwf.validName, fun item hitem =>
    nameBytes_of_valid (hwf.validKeys e he item hitem)⟩

theorem MetricRegistry.mem_prometheusLines {r : MetricRegistry}
    (h : Consistent r.families) {readings : Readings} {line : Line}
    (hline : line ∈ r.prometheusLines readings) : line.Named := by
  obtain ⟨s, hs, hline⟩ := mem_linesFrom hline
  obtain ⟨hname, hkeys⟩ := r.mem_snapshot h hs
  exact MetricSnapshot.named_lines hname hkeys line hline

theorem MetricRegistry.mem_series {r : MetricRegistry}
    (h : Consistent r.families) {readings : Readings}
    {p : Bytes × MetricLabels}
    (hp : p ∈ (r.prometheusLines readings).filterMap Line.series?) :
    NameBytes p.1 ∧ p.2.Named := by
  obtain ⟨line, hline, hp⟩ := List.mem_filterMap.mp hp
  have hnamed := r.mem_prometheusLines h hline
  cases line with
  | type name typeName => cases hp
  | sample name labels value =>
      rw [← Option.some.inj hp]
      exact hnamed

/-- No two sample lines begin with the same text. -/
theorem MetricRegistry.writeSeries_nodup {r : MetricRegistry}
    (h : Consistent r.families) (readings : Readings) :
    (((r.prometheusLines readings).filterMap Line.series?).map
      fun p => writeSeries p.1 p.2).Nodup := by
  refine List.Nodup.map_on (fun p hp p' hp' htext => ?_)
    (r.series_nodup h readings)
  obtain ⟨hname, hkeys⟩ := r.mem_series h hp
  obtain ⟨hname', hkeys'⟩ := r.mem_series h hp'
  exact writeSeries_injective hname hname' hkeys hkeys' htext

-- == one line

theorem NameBytes.newline_not_mem {name : Bytes} (h : NameBytes name) :
    newline ∉ name :=
  fun hmem => absurd (h newline hmem) (by decide)

theorem newline_not_mem_writeItem {item : Bytes × Bytes}
    (h : NameBytes item.1) : newline ∉ writeItem item := by
  unfold writeItem
  rw [writeLabel_eq]
  simp only [List.mem_append, not_or]
  exact ⟨⟨⟨h.newline_not_mem, by decide⟩,
    newline_not_mem_escapePrometheusLabel _⟩, by decide⟩

theorem newline_not_mem_writeLabels {labels : MetricLabels}
    (h : labels.Named) : newline ∉ writeLabels labels := by
  unfold writeLabels
  unfold MetricLabels.Named at h
  cases hitems : labels.items with
  | nil => exact List.not_mem_nil
  | cons first items =>
      rw [hitems] at h
      obtain ⟨hfirst, hrest⟩ := List.forall_mem_cons.mp h
      simp only [List.mem_append, not_or]
      refine ⟨⟨⟨by decide, newline_not_mem_writeItem hfirst⟩, ?_⟩,
        by decide⟩
      intro hmem
      obtain ⟨item, hitem, hmem⟩ := List.mem_flatMap.mp hmem
      rcases List.mem_append.mp hmem with hmem | hmem
      · revert hmem
        decide
      · exact newline_not_mem_writeItem (hrest item hitem) hmem

theorem newline_not_mem_repr (n : Nat) : newline ∉ ascii n.repr := by
  intro hmem
  obtain ⟨c, hc, hbyte⟩ := List.mem_map.mp hmem
  rw [Nat.repr, String.toList_ofList] at hc
  have hdigit := Nat.isDigit_of_mem_toDigits (by decide) (by decide) hc
  obtain ⟨hlow, hhigh⟩ := Bool.and_eq_true_iff.mp hdigit
  have hlow : 48 ≤ c.toNat := of_decide_eq_true hlow
  have hhigh : c.toNat ≤ 57 := of_decide_eq_true hhigh
  have hten : c.toNat % 256 = 10 := by
    have htoNat := congrArg UInt8.toNat hbyte
    rwa [UInt8.toNat_ofNat'] at htoNat
  omega

theorem newline_not_mem_writeValue (value : Int) :
    newline ∉ writeValue value := by
  cases value with
  | ofNat n => exact newline_not_mem_repr n
  | negSucc n =>
      show newline ∉ (("-" ++ n.succ.repr).toList.map _ : Bytes)
      rw [String.toList_append, List.map_append, List.mem_append, not_or]
      exact ⟨by decide, newline_not_mem_repr n.succ⟩

/-- A line is one line of the text, whatever its labels hold. -/
theorem Line.Named.text {line : Line} (h : line.Named) :
    ∃ body, line.text = body ++ [newline] ∧ newline ∉ body := by
  cases line with
  | type name typeName =>
      refine ⟨_, rfl, ?_⟩
      simp only [List.mem_append, not_or]
      refine ⟨⟨⟨by decide, NameBytes.newline_not_mem h⟩, by decide⟩, ?_⟩
      cases typeName <;> decide
  | sample name labels value =>
      refine ⟨_, rfl, ?_⟩
      unfold writeSeries
      simp only [List.mem_append, not_or]
      exact ⟨⟨⟨h.1.newline_not_mem, newline_not_mem_writeLabels h.2⟩,
        by decide⟩, newline_not_mem_writeValue value⟩

-- == result

/-- After any calls: the families are non-empty, of one kind and one set of
label keys each, with labels that all differ; whatever the metrics hold, no
series is exported twice, neither as a name with labels nor in the text, no
name is typed twice, and every line is one line of the text; a refused call
changes nothing; and an accepted `Register` is taken back by its
`Unregister`. -/
theorem registry_unambiguous {r : MetricRegistry}
    (h : machine.Reachable r) :
    (∀ f ∈ r.families, f.entries ≠ []
        ∧ (∀ e ∈ f.entries, ∀ e' ∈ f.entries,
          e.metric.kind = e'.metric.kind
            ∧ e.labels.items.map Prod.fst = e'.labels.items.map Prod.fst)
        ∧ (f.entries.map Entry.labels).Nodup)
      ∧ (∀ readings : Readings,
        ((r.prometheusLines readings).filterMap Line.series?).Nodup
          ∧ (((r.prometheusLines readings).filterMap Line.series?).map
            fun p => writeSeries p.1 p.2).Nodup
          ∧ ((r.prometheusLines readings).filterMap Line.typed?).Nodup
          ∧ ∀ line ∈ r.prometheusLines readings,
            ∃ body, line.text = body ++ [newline] ∧ newline ∉ body)
      ∧ (∀ a, (call a r).2 = false → (call a r).1 = r)
      ∧ ∀ name kind metric labels,
        (r.register name kind metric labels).2 = true →
          (r.register name kind metric labels).1.unregister name labels
            = (r, true) := by
  have hr := consistent_of_reachable h
  refine ⟨fun f hf => ?_, fun readings => ⟨r.series_nodup hr readings,
    r.writeSeries_nodup hr readings, r.typed_nodup hr readings,
    fun line hline => (r.mem_prometheusLines hr hline).text⟩,
    fun a => call_rejected, fun name kind metric labels =>
      r.unregister_register hr⟩
  have hwf := hr.wellFormed f hf
  exact ⟨hwf.nonempty, fun e he e' he' => ⟨hwf.oneKind e he e' he',
    sameLabelKeys_iff.mp (hwf.sameKeys e he e' he')⟩, hwf.distinct⟩

/-- A summary and a counter whose names share their beginning. -/
def twoFamilies : List Action :=
  [.register (ascii "rpc") .latency (some 0)
      { items := [(ascii "method", ascii "Echo")] },
    .register (ascii "rpc_total") .counter (some 1) {}]

theorem registry_unambiguous_twoFamilies :
    (machine.final twoFamilies {}).families.length = 2
      ∧ ∀ readings : Readings,
        (((machine.final twoFamilies {}).prometheusLines readings).filterMap
          Line.typed?).Nodup :=
  ⟨by decide +kernel, fun readings =>
    ((registry_unambiguous (Machine.reachable_final ⟨[], rfl⟩
      (by decide +kernel))).2.1 readings).2.2.1⟩

end AntRpc.Metrics
