import Mathlib.Data.List.Chain
import Mathlib.Data.List.Forall2
import Mathlib.Data.List.Induction
import Mathlib.Algebra.BigOperators.Group.List.Basic
import Mathlib.Algebra.Ring.Int.Defs
import Mathlib.Order.Basic

/-!
# Windows over cumulative histograms

`histogramWindow` of `apps/runner-autoscaler/histogram_window.go`: samples of a cumulative histogram, differenced into
the intervals of the last 30 minutes. Instants and durations are nanoseconds; a bound is of any type with `==`.

* `HistogramWindow.observe`, `HistogramWindow.reset`: the calls; `HistogramWindow.run`: a sequence of them.
* `SampleFollows`: a sample that continues the one before it.
* `window_published`: every published window is the difference of recorded samples of one unbroken stretch.
-/

namespace AgentLcars

def nanosPerSecond : Int := 1000000000

def histogramWindowSpan : Int := 30 * 60 * nanosPerSecond

def histogramSampleSpacing : Int := 60 * nanosPerSecond

def histogramWindowIntervals : Nat := 30

def consoleStatusInterval : Int := 10 * nanosPerSecond

/-- The zero `time.Time`, which no clock reads: the first instant of the year 1. -/
def zeroTime : Int := -62135596800 * nanosPerSecond

/-- `t.Sub(u)`, which saturates. -/
def durationSince (t u : Int) : Int := max (-2 ^ 63) (min (2 ^ 63 - 1) (t - u))

/-- The difference of two `int64`. -/
def subInt64 (a b : Int) : Int := Int.bmod (a - b) (2 ^ 64)

/-- One sample, with a count for each bound and one for `+Inf`, each a non-negative `int64`. -/
structure CumulativeHistogram (β : Type) where
  bounds : List β
  counts : List Int
  complete : counts.length = bounds.length + 1
  counted : ∀ count ∈ counts, 0 ≤ count ∧ count < 2 ^ 63

structure ConsoleHistogramInterval where
  endedAt : Int
  counts : List Int
deriving DecidableEq

structure ConsoleHistogramWindow (β : Type) where
  bounds : List β
  startedAt : Int
  intervals : List ConsoleHistogramInterval
deriving DecidableEq

/-- A sample at its instant; none is a source that reported nothing yet. -/
structure HistogramSnapshot (β : Type) where
  at_ : Int
  hist : Option (CumulativeHistogram β)

structure HistogramWindow (β : Type) where
  snapshots : List (HistogramSnapshot β)
  last : Option (CumulativeHistogram β)
  lastAt : Int

section Model

variable {β : Type} [BEq β]

/-- Whether `next` can follow `prev` on the same counters. -/
def histogramContinues (prev next : Option (CumulativeHistogram β)) : Bool :=
  match prev with
  | none => true
  | some prev =>
    match next with
    | none => false
    | some next =>
      decide (prev.bounds.length = next.bounds.length) &&
        (prev.bounds.zip next.bounds).all (fun p => p.2 == p.1) &&
        (prev.counts.zip next.counts).all fun p => decide (p.1 ≤ p.2)

/-- The oldest snapshots go while the second is not inside the span, or there are too many. -/
def trimSnapshots (cutoff : Int) : List (HistogramSnapshot β) → List (HistogramSnapshot β)
  | first :: second :: rest =>
    if second.at_ ≤ cutoff ∨ histogramWindowIntervals + 1 < (first :: second :: rest).length then
      trimSnapshots cutoff (second :: rest)
    else first :: second :: rest
  | snapshots => snapshots

/-- One interval, with as many counts as the latest snapshot has. -/
def intervalCounts (buckets : Nat) (before after : Option (CumulativeHistogram β)) : List Int :=
  (List.range buckets).map fun j =>
    match after with
    | none => 0
    | some after =>
      match before with
      | none => after.counts.getD j 0
      | some before => subInt64 (after.counts.getD j 0) (before.counts.getD j 0)

def histogramIntervals (buckets : Nat) : List (HistogramSnapshot β) → List ConsoleHistogramInterval
  | before :: after :: rest =>
    ⟨after.at_, intervalCounts buckets before.hist after.hist⟩ :: histogramIntervals buckets (after :: rest)
  | _ => []

/-- The published window: none while no interval is known or the source has never reported. -/
def publishedWindow (snapshots : List (HistogramSnapshot β)) : Option (ConsoleHistogramWindow β) :=
  match snapshots, snapshots.getLast?.bind HistogramSnapshot.hist with
  | first :: _ :: _, some latest =>
    some ⟨latest.bounds, first.at_, histogramIntervals latest.counts.length snapshots⟩
  | _, _ => none

namespace HistogramWindow

def empty : HistogramWindow β := ⟨[], none, zeroTime⟩

/-- `reset`: forgets the window. -/
def reset (_ : HistogramWindow β) : HistogramWindow β := empty

/-- A source restart, a change of layout, or a gap in the samples. -/
def interrupted (w : HistogramWindow β) (now : Int) (hist : Option (CumulativeHistogram β)) :
    Bool :=
  decide (w.lastAt ≠ zeroTime) &&
    (decide (2 * histogramSampleSpacing < durationSince now w.lastAt) ||
      !histogramContinues w.last hist)

/-- The snapshots with a sample, if it is time to record one. -/
def recordSample (snapshots : List (HistogramSnapshot β)) (now : Int)
    (hist : Option (CumulativeHistogram β)) :
    List (HistogramSnapshot β) :=
  if snapshots.getLast?.all fun latest =>
      decide (histogramSampleSpacing - consoleStatusInterval / 2 ≤ durationSince now latest.at_)
        then
    trimSnapshots (now - histogramWindowSpan) (snapshots ++ [⟨now, hist⟩])
  else snapshots

/-- `observe`, with the window that it publishes. -/
def observe (w : HistogramWindow β) (now : Int) (hist : Option (CumulativeHistogram β)) :
    HistogramWindow β × Option (ConsoleHistogramWindow β) :=
  let snapshots := recordSample (if w.interrupted now hist then [] else w.snapshots) now hist
  (⟨snapshots, hist, now⟩, publishedWindow snapshots)

end HistogramWindow

/-- A call on a window. -/
inductive WindowCall (β : Type) where
  | observe (sample : HistogramSnapshot β)
  | reset

namespace HistogramWindow

def call (w : HistogramWindow β) : WindowCall β → HistogramWindow β
  | .observe sample => (w.observe sample.at_ sample.hist).1
  | .reset => w.reset

/-- The window after a sequence of calls. -/
def run (calls : List (WindowCall β)) : HistogramWindow β := calls.foldl call empty

end HistogramWindow

end Model

/-- The instants of the calls that have one. -/
def callTimes {β : Type} (calls : List (WindowCall β)) : List Int :=
  calls.filterMap fun
    | .observe sample => some sample.at_
    | .reset => none

/-- A clock that never goes back, and never reads the zero time. -/
structure SteadyClock {β : Type} (calls : List (WindowCall β)) : Prop where
  forward : (callTimes calls).Pairwise (· ≤ ·)
  running : ∀ t ∈ callTimes calls, t ≠ zeroTime

/-! ### Samples that continue each other -/

section Growth

variable {β : Type} [BEq β]

/-- The count of a bucket, where an absent sample counts as zero. -/
def bucketCount (hist : Option (CumulativeHistogram β)) (j : Nat) : Int :=
  (hist.map fun hist => hist.counts.getD j 0).getD 0

/-- The second sample may be a later one of the same counters. -/
structure Grown (a b : Option (CumulativeHistogram β)) : Prop where
  reported : ∀ ha, a = some ha →
    ∃ hb, b = some hb ∧ List.Forall₂ (fun x y => (x == y) = true) ha.bounds hb.bounds
  counts : ∀ j, bucketCount a j ≤ bucketCount b j

/-- The second sample continues the first: no gap, and no restart, decrease or change of layout. -/
structure SampleFollows (a b : HistogramSnapshot β) : Prop where
  near : b.at_ - a.at_ ≤ 2 * histogramSampleSpacing
  grown : Grown a.hist b.hist

omit [BEq β] in
theorem bucketCount_nonneg (hist : Option (CumulativeHistogram β)) (j : Nat) :
    0 ≤ bucketCount hist j := by
  cases hist with
  | none => exact Int.le_refl 0
  | some hist =>
    show 0 ≤ hist.counts.getD j 0
    rw [List.getD_eq_getElem?_getD]
    cases hget : hist.counts[j]? with
    | none => exact Int.le_refl 0
    | some count => exact (hist.counted count (List.mem_of_getElem? hget)).1

omit [BEq β] in
theorem bucketCount_lt (hist : Option (CumulativeHistogram β)) (j : Nat) :
    bucketCount hist j < 2 ^ 63 := by
  cases hist with
  | none => exact Int.pow_pos (by decide)
  | some hist =>
    show hist.counts.getD j 0 < 2 ^ 63
    rw [List.getD_eq_getElem?_getD]
    cases hget : hist.counts[j]? with
    | none => exact Int.pow_pos (by decide)
    | some count => exact (hist.counted count (List.mem_of_getElem? hget)).2

variable [PartialEquivBEq β]

theorem grown_of_continues {a b : Option (CumulativeHistogram β)}
    (h : histogramContinues a b = true) : Grown a b := by
  cases a with
  | none =>
    exact ⟨fun ha hnone => (nomatch hnone), fun j => bucketCount_nonneg b j⟩
  | some a =>
    cases b with
    | none => exact absurd h Bool.false_ne_true
    | some b =>
      unfold histogramContinues at h
      simp only [Bool.and_eq_true, decide_eq_true_eq] at h
      obtain ⟨⟨hlength, hbounds⟩, hcounts⟩ := h
      have hcountLength : a.counts.length = b.counts.length := by
        rw [a.complete, b.complete, hlength]
      refine ⟨?_, ?_⟩
      · intro ha heq
        rw [← Option.some.inj heq]
        refine ⟨b, rfl, List.forall₂_iff_zip.2 ⟨hlength, ?_⟩⟩
        intro x y hmem
        exact PartialEquivBEq.symm (List.all_eq_true.1 hbounds (x, y) hmem)
      · intro j
        show a.counts.getD j 0 ≤ b.counts.getD j 0
        have hpairs : List.Forall₂ (fun x y => x ≤ y) a.counts b.counts :=
          List.forall₂_iff_zip.2 ⟨hcountLength,
            fun hmem => of_decide_eq_true (List.all_eq_true.1 hcounts _ hmem)⟩
        rw [List.getD_eq_getElem?_getD, List.getD_eq_getElem?_getD]
        by_cases hj : j < a.counts.length
        · have hj' : j < b.counts.length := hcountLength ▸ hj
          rw [List.getElem?_eq_getElem hj, List.getElem?_eq_getElem hj']
          exact (List.forall₂_iff_get.1 hpairs).2 j hj hj'
        · have hnone : a.counts[j]? = none := List.getElem?_eq_none (Nat.le_of_not_lt hj)
          have hnone' : b.counts[j]? = none :=
            List.getElem?_eq_none (hcountLength ▸ Nat.le_of_not_lt hj)
          exact Int.le_of_eq (by rw [hnone, hnone'])

theorem Grown.trans {a b c : Option (CumulativeHistogram β)} (h : Grown a b) (h' : Grown b c) :
    Grown a c where
  reported ha heq := by
    obtain ⟨hb, hbeq, hbounds⟩ := h.reported ha heq
    obtain ⟨hc, hceq, hbounds'⟩ := h'.reported hb hbeq
    refine ⟨hc, hceq, ?_⟩
    refine List.forall₂_iff_get.2 ⟨hbounds.length_eq.trans hbounds'.length_eq, ?_⟩
    intro j hj hj'
    have hmiddle : j < hb.bounds.length := hbounds.length_eq ▸ hj
    exact PartialEquivBEq.trans ((List.forall₂_iff_get.1 hbounds).2 j hj hmiddle)
      ((List.forall₂_iff_get.1 hbounds').2 j hmiddle hj')
  counts j := Int.le_trans (h.counts j) (h'.counts j)

/-- Along a stretch without interruption every sample grows from each before it. -/
theorem pairwise_grown {samples : List (HistogramSnapshot β)} (h : samples.IsChain SampleFollows) :
    samples.Pairwise fun a b => Grown a.hist b.hist := by
  have hgrown : samples.IsChain fun a b => Grown a.hist b.hist := h.imp fun _ _ hfollows =>
    hfollows.grown
  have : IsTrans (HistogramSnapshot β) fun a b => Grown a.hist b.hist :=
    ⟨fun _ _ _ h h' => h.trans h'⟩
  exact hgrown.pairwise

end Growth

/-! ### The snapshots that are kept -/

section Recording

variable {β : Type} {snapshots : List (HistogramSnapshot β)}

/-- What the kept snapshots are like: spaced, few, and the second of them inside the span of the
latest. -/
structure RecordedSpan (snapshots : List (HistogramSnapshot β)) : Prop where
  some : snapshots ≠ []
  spaced : snapshots.Pairwise fun a b => a.at_ < b.at_
  few : snapshots.length ≤ histogramWindowIntervals + 1
  recent : ∀ second ∈ snapshots[1]?, ∀ latest ∈ snapshots.getLast?,
    latest.at_ - histogramWindowSpan < second.at_

theorem trimSnapshots_suffix (cutoff : Int) (snapshots : List (HistogramSnapshot β)) :
    trimSnapshots cutoff snapshots <:+ snapshots := by
  fun_induction trimSnapshots cutoff snapshots with
  | case1 first second rest _ ih => exact ih.trans (List.suffix_cons _ _)
  | case2 first second rest _ => exact List.suffix_refl _
  | case3 snapshots _ => exact List.suffix_refl _

theorem trimSnapshots_ne_nil {cutoff : Int} (h : snapshots ≠ []) :
    trimSnapshots cutoff snapshots ≠ [] := by
  fun_induction trimSnapshots cutoff snapshots with
  | case1 first second rest _ ih => exact ih (List.cons_ne_nil _ _)
  | case2 first second rest _ => exact h
  | case3 snapshots _ => exact h

/-- What trimming ends with. -/
theorem trimSnapshots_done (cutoff : Int) (snapshots : List (HistogramSnapshot β)) :
    (trimSnapshots cutoff snapshots).length ≤ histogramWindowIntervals + 1 ∧
      ∀ second ∈ (trimSnapshots cutoff snapshots)[1]?, cutoff < second.at_ := by
  fun_induction trimSnapshots cutoff snapshots with
  | case1 first second rest _ ih => exact ih
  | case2 first second rest hdone =>
    rw [not_or] at hdone
    refine ⟨Nat.le_of_not_lt hdone.2, ?_⟩
    intro s hs
    rw [← Option.some.inj hs]
    exact Int.lt_of_not_ge hdone.1
  | case3 snapshots hshort =>
    match snapshots with
    | [] => exact ⟨Nat.zero_le _, fun _ h => (nomatch h)⟩
    | [first] => exact ⟨Nat.succ_le_succ (Nat.zero_le _), fun _ h => (nomatch h)⟩
    | first :: second :: rest => exact absurd rfl (hshort first second rest)

theorem durationSince_le {t u : Int} {d : Int} (hd : d < 2 ^ 63 - 1) (hd' : -2 ^ 63 ≤ d) :
    durationSince t u ≤ d ↔ t - u ≤ d := by
  unfold durationSince
  omega

theorem le_durationSince {t u : Int} {d : Int} (hd : d ≤ 2 ^ 63 - 1) (hd' : -2 ^ 63 < d) :
    d ≤ durationSince t u ↔ d ≤ t - u := by
  unfold durationSince
  omega

/-- Recording a sample that is not older than the snapshots. -/
theorem recordedSpan_recordSample {now : Int} {hist : Option (CumulativeHistogram β)}
    (h : snapshots = [] ∨ RecordedSpan snapshots) :
      RecordedSpan (HistogramWindow.recordSample snapshots now hist) := by
  unfold HistogramWindow.recordSample
  split
  · rename_i htime
    have hspaced : List.Pairwise (fun a b => a.at_ < b.at_) (snapshots ++ [⟨now, hist⟩]) := by
      rcases h with rfl | h
      · exact List.pairwise_singleton _ _
      · obtain ⟨latest, hlatest⟩ : ∃ latest, snapshots.getLast? = some latest :=
          ⟨_, List.getLast?_eq_some_getLast h.some⟩
        rw [hlatest, Option.all_some, decide_eq_true_eq,
          le_durationSince (by decide) (by decide)] at htime
        have hgap : (0 : Int) < histogramSampleSpacing - consoleStatusInterval / 2 := by decide
        refine List.pairwise_append.2 ⟨h.spaced, List.pairwise_singleton _ _, ?_⟩
        intro a ha b hb
        rw [List.mem_singleton.1 hb]
        have hle : a.at_ ≤ latest.at_ := by
          obtain ⟨before, hbefore⟩ := List.getLast?_eq_some_iff.1 hlatest
          have hpairs := h.spaced
          rw [hbefore] at ha hpairs
          rcases List.mem_append.1 ha with ha | ha
          · exact Int.le_of_lt ((List.pairwise_append.1 hpairs).2.2 a ha latest List.mem_cons_self)
          · exact Int.le_of_eq (congrArg HistogramSnapshot.at_ (List.mem_singleton.1 ha))
        show a.at_ < now
        omega
    have hsuffix := trimSnapshots_suffix (now - histogramWindowSpan) (snapshots ++ [⟨now, hist⟩])
    have hne : trimSnapshots (now - histogramWindowSpan) (snapshots ++ [⟨now, hist⟩]) ≠ [] :=
      trimSnapshots_ne_nil (List.append_ne_nil_of_right_ne_nil _ (List.cons_ne_nil _ _))
    obtain ⟨hfew, hrecent⟩ :=
      trimSnapshots_done (now - histogramWindowSpan) (snapshots ++ [⟨now, hist⟩])
    refine ⟨hne, hspaced.sublist hsuffix.sublist, hfew, ?_⟩
    intro second hsecond latest hlatest
    have hlast : (trimSnapshots (now - histogramWindowSpan) (snapshots ++ [⟨now, hist⟩])).getLast? =
        some ⟨now, hist⟩ := by
      obtain ⟨dropped, hdropped⟩ := hsuffix
      have hwhole := congrArg List.getLast? hdropped
      rw [List.getLast?_append_of_ne_nil _ hne, List.getLast?_concat] at hwhole
      exact hwhole
    rw [hlast] at hlatest
    rw [← Option.some.inj hlatest]
    exact hrecent second hsecond
  · rename_i htime
    rcases h with rfl | h
    · exact absurd rfl htime
    · exact h

theorem recordSample_sublist {now : Int} {hist : Option (CumulativeHistogram β)}
    {samples : List (HistogramSnapshot β)} (h : snapshots.Sublist samples) :
    (HistogramWindow.recordSample snapshots now hist).Sublist (samples ++ [⟨now, hist⟩]) := by
  unfold HistogramWindow.recordSample
  split
  · exact (trimSnapshots_suffix _ _).sublist.trans (h.append (List.Sublist.refl _))
  · exact h.trans (List.sublist_append_left _ _)

end Recording

/-! ### Runs of calls -/

section Runs

variable {β : Type} [BEq β] {calls : List (WindowCall β)}

/-- The samples at the end of the calls, none of which is interrupted or reset behind another. -/
structure SampleStretch (calls : List (WindowCall β)) (samples : List (HistogramSnapshot β)) :
    Prop where
  last : ∃ before, calls = before ++ samples.map WindowCall.observe
  unbroken : samples.IsChain SampleFollows

/-- What a window that has sampled since its last reset keeps. -/
structure Sampled (calls : List (WindowCall β)) (w : HistogramWindow β) : Prop where
  running : w.lastAt ≠ zeroTime
  recorded : RecordedSpan w.snapshots
  stretch : ∃ samples, SampleStretch calls samples ∧ samples.getLast? = some ⟨w.lastAt, w.last⟩ ∧
    w.snapshots.Sublist samples

theorem run_concat (call : WindowCall β) :
    HistogramWindow.run (calls ++ [call]) = (HistogramWindow.run calls).call call := by
  unfold HistogramWindow.run
  rw [List.foldl_append]
  rfl

variable [PartialEquivBEq β]

/-- A sample that does not interrupt follows the last one. -/
theorem sampleFollows_of_not_interrupted {w : HistogramWindow β} {sample : HistogramSnapshot β}
    (hrunning : w.lastAt ≠ zeroTime) (h : w.interrupted sample.at_ sample.hist = false) :
      SampleFollows ⟨w.lastAt, w.last⟩ sample := by
  unfold HistogramWindow.interrupted at h
  rw [decide_eq_true hrunning, Bool.true_and, Bool.or_eq_false_iff, decide_eq_false_iff_not,
    Int.not_lt,
    durationSince_le (by decide) (by decide), Bool.not_eq_false'] at h
  exact ⟨h.1, grown_of_continues h.2⟩

/-- A call keeps what is known of the window. -/
theorem sampled_observe {w : HistogramWindow β} {sample : HistogramSnapshot β}
    (hsample : sample.at_ ≠ zeroTime)
    (h : w = .empty ∨ Sampled calls w) :
    Sampled (calls ++ [.observe sample]) (w.observe sample.at_ sample.hist).1 := by
  have halone : Sampled (calls ++ [.observe sample])
      ⟨HistogramWindow.recordSample [] sample.at_ sample.hist, sample.hist, sample.at_⟩ :=
    ⟨hsample, recordedSpan_recordSample (.inl rfl), [sample],
      ⟨⟨calls, rfl⟩, List.isChain_singleton _⟩, rfl,
      recordSample_sublist (List.Sublist.refl [])⟩
  show Sampled _ ⟨HistogramWindow.recordSample (if w.interrupted sample.at_ sample.hist then [] else w.snapshots)
    sample.at_ sample.hist, sample.hist, sample.at_⟩
  rcases h with rfl | h
  · have hempty : (if (HistogramWindow.empty : HistogramWindow β).interrupted sample.at_ sample.hist then []
        else (HistogramWindow.empty : HistogramWindow β).snapshots) = [] := ite_self _
    rw [hempty]
    exact halone
  · cases hinterrupted : w.interrupted sample.at_ sample.hist with
    | true => exact halone
    | false =>
      obtain ⟨samples, hstretch, hlast, hsub⟩ := h.stretch
      obtain ⟨before, hcalls⟩ := hstretch.last
      refine ⟨hsample, recordedSpan_recordSample (.inr h.recorded), samples ++ [sample],
        ⟨⟨before, ?_⟩, ?_⟩, ?_,
        recordSample_sublist hsub⟩
      · rw [hcalls, List.map_append, List.append_assoc]
        rfl
      · refine List.isChain_append.2 ⟨hstretch.unbroken, List.isChain_singleton _, ?_⟩
        intro a ha b hb
        rw [hlast] at ha
        rw [← Option.some.inj ha, ← Option.some.inj hb]
        exact sampleFollows_of_not_interrupted h.running hinterrupted
      · exact List.getLast?_concat

/-- After any calls the window is fresh, or keeps samples of one unbroken stretch. -/
theorem sampled_run (hclock : SteadyClock calls) :
    HistogramWindow.run calls = .empty ∨ Sampled calls (HistogramWindow.run calls) := by
  induction calls using List.reverseRecOn with
  | nil => exact .inl rfl
  | append_singleton calls call ih =>
    have htimes : callTimes (calls ++ [call]) = callTimes calls ++ callTimes [call] :=
      List.filterMap_append
    have hbefore : SteadyClock calls := by
      refine ⟨?_, fun t ht => hclock.running t ?_⟩
      · have hforward := hclock.forward
        rw [htimes] at hforward
        exact (List.pairwise_append.1 hforward).1
      · rw [htimes]
        exact List.mem_append_left _ ht
    rw [run_concat]
    cases call with
    | reset => exact .inl rfl
    | observe sample =>
      refine .inr (sampled_observe (hclock.running _ ?_) (ih hbefore))
      rw [htimes]
      exact List.mem_append_right _ List.mem_cons_self

end Runs

/-! ### The window that is published -/

section Publishing

variable {β : Type} {snapshots : List (HistogramSnapshot β)}

theorem length_intervalCounts (buckets : Nat) (before after : Option (CumulativeHistogram β)) :
    (intervalCounts buckets before after).length = buckets := by
  unfold intervalCounts
  rw [List.length_map, List.length_range]

theorem endedAt_histogramIntervals (buckets : Nat) (snapshots : List (HistogramSnapshot β)) :
    (histogramIntervals buckets snapshots).map ConsoleHistogramInterval.endedAt =
      snapshots.tail.map HistogramSnapshot.at_ := by
  fun_induction histogramIntervals buckets snapshots with
  | case1 before after rest ih =>
    rw [List.map_cons, ih]
    rfl
  | case2 snapshots hshort =>
    match snapshots with
    | [] => rfl
    | [_] => rfl
    | before :: after :: rest => exact absurd rfl (hshort before after rest)

theorem length_counts_of_mem {buckets : Nat} {interval : ConsoleHistogramInterval}
    (h : interval ∈ histogramIntervals buckets snapshots) : interval.counts.length = buckets := by
  fun_induction histogramIntervals buckets snapshots with
  | case1 before after rest ih =>
    rcases List.mem_cons.1 h with rfl | h
    · exact length_intervalCounts buckets before.hist after.hist
    · exact ih h
  | case2 snapshots _ => exact absurd h List.not_mem_nil

variable [BEq β]

/-- The difference of two samples of the same counters does not overflow. -/
theorem intervalCounts_getD {buckets : Nat} {before after : Option (CumulativeHistogram β)}
    (h : Grown before after)
    {j : Nat} (hj : j < buckets) :
    (intervalCounts buckets before after).getD j 0 =
      bucketCount after j - bucketCount before j := by
  unfold intervalCounts
  rw [List.getD_eq_getElem?_getD, List.getElem?_map, List.getElem?_range hj, Option.map_some,
    Option.getD_some]
  cases after with
  | none =>
    cases before with
    | none => rfl
    | some before =>
      obtain ⟨_, hnone, _⟩ := h.reported before rfl
      exact nomatch hnone
  | some after =>
    cases before with
    | none => exact (Int.sub_zero _).symm
    | some before =>
      have hless := h.counts j
      have hlow := bucketCount_nonneg (some before) j
      have hhigh := bucketCount_lt (some after) j
      show Int.bmod (bucketCount (some after) j - bucketCount (some before) j) (2 ^ 64) = _
      refine Int.bmod_eq_of_le ?_ ?_
      · omega
      · omega

/-- No count of an interval is negative. -/
theorem counts_nonneg {buckets : Nat} (h : snapshots.Pairwise fun a b => Grown a.hist b.hist)
    {interval : ConsoleHistogramInterval} (hmem : interval ∈ histogramIntervals buckets snapshots)
    {count : Int}
    (hcount : count ∈ interval.counts) : 0 ≤ count := by
  fun_induction histogramIntervals buckets snapshots with
  | case1 before after rest ih =>
    rw [List.pairwise_cons] at h
    rcases List.mem_cons.1 hmem with rfl | hmem
    · have hgrown := h.1 after List.mem_cons_self
      obtain ⟨j, hj, rfl⟩ := List.getElem_of_mem hcount
      have hbucket : j < buckets := length_intervalCounts buckets before.hist after.hist ▸ hj
      have hdifference := intervalCounts_getD hgrown hbucket
      rw [List.getD_eq_getElem?_getD, List.getElem?_eq_getElem hj, Option.getD_some] at hdifference
      show 0 ≤ (intervalCounts buckets before.hist after.hist)[j]
      rw [hdifference]
      exact Int.sub_nonneg_of_le (hgrown.counts j)
    · exact ih h.2 hmem
  | case2 snapshots _ => exact absurd hmem List.not_mem_nil

/-- The counts of a bucket add up to the last snapshot less the first. -/
theorem sum_counts {buckets : Nat} (h : snapshots.Pairwise fun a b => Grown a.hist b.hist) {j : Nat}
    (hj : j < buckets)
    {first latest : HistogramSnapshot β} (hfirst : snapshots.head? = some first)
    (hlatest : snapshots.getLast? = some latest) :
    ((histogramIntervals buckets snapshots).map fun interval => interval.counts.getD j 0).sum =
      bucketCount latest.hist j - bucketCount first.hist j := by
  fun_induction histogramIntervals buckets snapshots generalizing first with
  | case1 before after rest ih =>
    rw [List.pairwise_cons] at h
    rw [List.getLast?_cons_cons] at hlatest
    have hrest := ih h.2 rfl hlatest
    have hdifference := intervalCounts_getD (h.1 after List.mem_cons_self) hj
    have hsame : before = first := Option.some.inj hfirst
    rw [List.map_cons, List.sum_cons, hrest, ← hsame]
    show (intervalCounts buckets before.hist after.hist).getD j 0 + _ = _
    omega
  | case2 snapshots hshort =>
    match snapshots with
    | [] => exact nomatch hfirst
    | [only] =>
      have hfirst : only = first := Option.some.inj hfirst
      have hlatest : only = latest := Option.some.inj hlatest
      rw [← hfirst, ← hlatest]
      exact (Int.sub_self _).symm
    | before :: after :: rest => exact absurd rfl (hshort before after rest)

/-- What a published window says of the samples it was made from, after the calls that ended with
its own. -/
structure PublishedSpan (calls : List (WindowCall β)) (snapshots : List (HistogramSnapshot β))
    (window : ConsoleHistogramWindow β) : Prop where
  /-- The snapshots are samples of the last calls, with no reset, gap, restart or change of layout between two. -/
  unbroken : ∃ samples, SampleStretch calls samples ∧ snapshots.Sublist samples
  startedAt : snapshots.head?.map HistogramSnapshot.at_ = some window.startedAt
  endedAt : window.intervals.map ConsoleHistogramInterval.endedAt = snapshots.tail.map HistogramSnapshot.at_
  some : 1 ≤ window.intervals.length
  few : window.intervals.length ≤ 30
  layout : ∀ interval ∈ window.intervals, interval.counts.length = window.bounds.length + 1
  /-- Every snapshot that reported has the layout of the window, so that no index is out of its range. -/
  reported : ∀ snapshot ∈ snapshots, ∀ hist ∈ snapshot.hist,
    hist.bounds = window.bounds ∨
      List.Forall₂ (fun x y => (x == y) = true) hist.bounds window.bounds
  spaced : window.intervals.Pairwise fun a b => a.endedAt < b.endedAt
  recent : ∀ oldest ∈ window.intervals.head?, ∀ latest ∈ snapshots.getLast?,
    latest.at_ - 30 * 60 * nanosPerSecond < oldest.endedAt
  counted : ∀ interval ∈ window.intervals, ∀ count ∈ interval.counts, 0 ≤ count
  total : ∀ first ∈ snapshots.head?, ∀ latest ∈ snapshots.getLast?, ∀ j < window.bounds.length + 1,
    (window.intervals.map fun interval => interval.counts.getD j 0).sum =
      bucketCount latest.hist j - bucketCount first.hist j

omit [BEq β] in
/-- The parts of a window that was published. -/
theorem publishedWindow_eq_some_iff {window : ConsoleHistogramWindow β} :
    publishedWindow snapshots = some window ↔
      ∃ first second rest hist latest, snapshots = first :: second :: rest ∧ snapshots.getLast? =
        some latest ∧
        latest.hist = some hist ∧
        window = ⟨hist.bounds, first.at_, histogramIntervals hist.counts.length snapshots⟩ := by
  constructor
  · intro h
    unfold publishedWindow at h
    split at h
    · rename_i first second rest hist hlast
      obtain ⟨latest, hlatest, hreported⟩ := Option.bind_eq_some_iff.1 hlast
      exact ⟨first, second, rest, hist, latest, rfl, hlatest, hreported, (Option.some.inj h).symm⟩
    · exact nomatch h
  · rintro ⟨first, second, rest, hist, latest, rfl, hlatest, hreported, rfl⟩
    unfold publishedWindow
    rw [hlatest, Option.bind_some, hreported]

/-- Snapshots of one unbroken stretch publish their differences. -/
theorem published_of_sampled [PartialEquivBEq β] {calls : List (WindowCall β)}
    {w : HistogramWindow β}
    (h : Sampled calls w) {window : ConsoleHistogramWindow β}
    (hwindow : publishedWindow w.snapshots = some window) :
    PublishedSpan calls w.snapshots window := by
  obtain ⟨samples, hstretch, _, hsub⟩ := h.stretch
  have hgrown : w.snapshots.Pairwise fun a b => Grown a.hist b.hist :=
    (pairwise_grown hstretch.unbroken).sublist hsub
  obtain ⟨first, second, rest, hist, latest, hsnapshots, hlatest, hreported, rfl⟩ :=
    publishedWindow_eq_some_iff.1 hwindow
  have hended := endedAt_histogramIntervals hist.counts.length w.snapshots
  have hlength : (histogramIntervals hist.counts.length w.snapshots).length = rest.length + 1 := by
    rw [← List.length_map ConsoleHistogramInterval.endedAt, hended, hsnapshots, List.length_map]
    rfl
  have hfew := h.recorded.few
  rw [hsnapshots] at hfew
  refine ⟨⟨samples, hstretch, hsub⟩, ?_, hended, ?_, ?_, ?_, ?_, ?_, ?_, ?_, ?_⟩
  · rw [hsnapshots]
    rfl
  · rw [hlength]
    exact Nat.succ_le_succ (Nat.zero_le _)
  · rw [hlength]
    exact Nat.le_of_succ_le_succ hfew
  · intro interval hmem
    rw [length_counts_of_mem hmem, hist.complete]
  · intro snapshot hmem earlier hearlier
    obtain ⟨before, hbefore⟩ := List.getLast?_eq_some_iff.1 hlatest
    rw [hbefore] at hmem hgrown
    rcases List.mem_append.1 hmem with hmem | hmem
    · obtain ⟨hist', hsame, hbounds⟩ :=
        ((List.pairwise_append.1 hgrown).2.2 snapshot hmem latest List.mem_cons_self).reported earlier hearlier
      rw [hreported] at hsame
      rw [← Option.some.inj hsame] at hbounds
      exact .inr hbounds
    · rw [List.mem_singleton.1 hmem, hreported] at hearlier
      rw [Option.some.inj hearlier]
      exact .inl rfl
  · refine List.pairwise_map.1 ?_
    rw [hended]
    exact List.pairwise_map.2 (h.recorded.spaced.sublist (List.tail_sublist _))
  · intro oldest holdest last hlast
    rw [hsnapshots] at holdest
    rw [← Option.some.inj holdest]
    exact h.recorded.recent second (hsnapshots ▸ rfl) last hlast
  · intro interval hmem count hcount
    exact counts_nonneg hgrown hmem hcount
  · intro start hstart last hlast j hj
    exact sum_counts hgrown (hist.complete ▸ hj) hstart hlast

/-- Every window that is published after any calls, by a clock that does not go back, is the difference of recorded
samples of one unbroken stretch. -/
theorem window_published [PartialEquivBEq β] (calls : List (WindowCall β))
    (sample : HistogramSnapshot β)
    (hclock : SteadyClock (calls ++ [.observe sample])) (window : ConsoleHistogramWindow β)
    (hwindow : ((HistogramWindow.run calls).observe sample.at_ sample.hist).2 = some window) :
    PublishedSpan (calls ++ [.observe sample])
    (HistogramWindow.run (calls ++ [.observe sample])).snapshots window := by
  have hrun : HistogramWindow.run (calls ++ [.observe sample]) =
      ((HistogramWindow.run calls).observe sample.at_ sample.hist).1 := run_concat (.observe sample)
  rcases sampled_run hclock with hempty | hsampled
  · exfalso
    rw [hrun] at hempty
    have hsnapshots := congrArg HistogramWindow.snapshots hempty
    have hnone : ((HistogramWindow.run calls).observe sample.at_ sample.hist).2 = publishedWindow [] :=
      congrArg publishedWindow hsnapshots
    rw [hnone] at hwindow
    exact nomatch hwindow
  · refine published_of_sampled hsampled ?_
    rw [hrun]
    exact hwindow

namespace Sample

/-- A source with one bound, which has counted some observations under it and some above. -/
def startupBuckets (under above : Nat) (hunder : under < 2 ^ 63) (habove : above < 2 ^ 63) :
    CumulativeHistogram Nat where
  bounds := [5]
  counts := [under, above]
  complete := rfl
  counted := by
    intro count hcount
    simp only [List.mem_cons, List.not_mem_nil, or_false] at hcount
    rcases hcount with rfl | rfl
    · omega
    · omega

/-- A source that reports only from its second sample on, and a sample that is not recorded. -/
def startupSamples : List (WindowCall Nat) :=
  [.reset, .observe ⟨0, none⟩,
    .observe ⟨60 * nanosPerSecond, some (startupBuckets 2 1 (by decide) (by decide))⟩,
    .observe ⟨70 * nanosPerSecond, some (startupBuckets 3 1 (by decide) (by decide))⟩]

def lastStartupSample : HistogramSnapshot Nat :=
  ⟨120 * nanosPerSecond, some (startupBuckets 5 1 (by decide) (by decide))⟩

def startupWindow : ConsoleHistogramWindow Nat :=
  ⟨[5], 0, [⟨60 * nanosPerSecond, [2, 1]⟩, ⟨120 * nanosPerSecond, [3, 0]⟩]⟩

end Sample

theorem window_published_startup :
    PublishedSpan (Sample.startupSamples ++ [.observe Sample.lastStartupSample])
      (HistogramWindow.run (Sample.startupSamples ++ [.observe Sample.lastStartupSample])).snapshots
      Sample.startupWindow :=
  window_published Sample.startupSamples Sample.lastStartupSample ⟨by decide,
    by decide⟩ Sample.startupWindow
    (by decide +kernel)

end Publishing

end AgentLcars
