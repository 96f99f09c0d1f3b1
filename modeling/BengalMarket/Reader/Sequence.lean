import BengalMarket.Library.Observations
import BengalMarket.Reader.Core
import Mathlib.Algebra.Order.BigOperators.Group.List

namespace BengalMarket

open Observations

abbrev Observation := UInt64 × UInt64

namespace SequenceTracker

/-- An observation beyond the stream limit leaves the tracker as it is. -/
def observe (t : SequenceTracker) (entry : Observation) : SequenceTracker :=
  match t.track entry.1 entry.2 with
  | .ok next => next
  | .error _ => t

def connections (stream : List Observation) : List UInt64 :=
  firstKeys maximumSequenceStreams (stream.map Prod.fst)

def sequencesOf (connectionId : UInt64) (stream : List Observation) : List Nat :=
  (subsequence connectionId stream).map UInt64.toNat

def total (f : List Nat → Nat) (stream : List Observation) : Nat :=
  ((connections stream).map fun c => f (sequencesOf c stream)).sum

structure Tracks (stream : List Observation) (t : SequenceTracker) : Prop where
  keys : t.lastSequences.map Prod.fst = connections stream
  last : ∀ c v, t.lastSequences.lookup c = some v → v.toNat = largest (sequencesOf c stream)
  gaps : t.sequenceGaps = UInt64.ofNat (total missing stream)
  late : t.outOfOrder = UInt64.ofNat (total late stream)

theorem lookup_entry_cons (c d v : UInt64) (table : List Observation) :
    ((d, v) :: table).lookup c = if c = d then some v else table.lookup c := by
  rw [List.lookup_cons]
  by_cases h : c = d
  · simp [h]
  · rw [if_neg h, beq_eq_false_iff_ne.2 h]

theorem lookup_isSome_iff {table : List Observation} {c : UInt64} :
    (table.lookup c).isSome ↔ c ∈ table.map Prod.fst := by
  induction table with
  | nil => simp
  | cons entry table ih =>
    obtain ⟨d, v⟩ := entry
    rw [lookup_entry_cons, List.map_cons, List.mem_cons]
    by_cases h : c = d
    · simp [h]
    · rw [if_neg h, ih]
      simp [h]

theorem map_fst_setLast (table : List Observation) (c q : UInt64) :
    (setLast table c q).map Prod.fst = table.map Prod.fst := by
  simp only [setLast, List.map_map]
  apply List.map_congr_left
  intro entry _
  simp only [Function.comp_apply]
  split
  · rename_i h; exact h.symm
  · rfl

theorem lookup_setLast {table : List Observation} {c d q : UInt64} :
    (setLast table c q).lookup d =
      if d = c then (table.lookup d).map fun _ => q else table.lookup d := by
  induction table with
  | nil => simp [setLast]
  | cons entry table ih =>
    obtain ⟨e, v⟩ := entry
    have hcons : setLast ((e, v) :: table) c q =
        (e, if e = c then q else v) :: setLast table c q := by
      simp only [setLast, List.map_cons]
      split <;> simp_all
    rw [hcons, lookup_entry_cons, lookup_entry_cons, ih]
    by_cases he : d = e
    · subst he
      by_cases hd : d = c <;> simp [hd]
    · simp [he]

theorem lookup_concat {table : List Observation} {c d q : UInt64} :
    (table ++ [(c, q)]).lookup d =
      (table.lookup d).or (if d = c then some q else none) := by
  induction table with
  | nil => rw [List.nil_append, lookup_entry_cons]; rfl
  | cons entry table ih =>
    obtain ⟨e, v⟩ := entry
    rw [List.cons_append, lookup_entry_cons, lookup_entry_cons, ih]
    by_cases hd : d = e <;> simp [hd]

theorem sequencesOf_concat_self (c q : UInt64) (stream : List Observation) :
    sequencesOf c (stream ++ [(c, q)]) = sequencesOf c stream ++ [q.toNat] := by
  simp [sequencesOf, subsequence_concat_self]

theorem sequencesOf_concat_of_ne {c d : UInt64} (h : d ≠ c) (q : UInt64)
    (stream : List Observation) :
    sequencesOf c (stream ++ [(d, q)]) = sequencesOf c stream := by
  simp [sequencesOf, subsequence_concat_of_ne h]

theorem sequencesOf_ne_nil {c : UInt64} {stream : List Observation}
    (h : c ∈ connections stream) : sequencesOf c stream ≠ [] := by
  obtain ⟨entry, hentry, rfl⟩ := List.mem_map.1 (mem_of_mem_firstKeys h)
  intro hnil
  simp only [sequencesOf, subsequence, List.map_eq_nil_iff, List.filter_eq_nil_iff] at hnil
  exact hnil entry hentry (by simp)

theorem sequencesOf_eq_nil {c : UInt64} {stream : List Observation}
    (h : c ∉ stream.map Prod.fst) : sequencesOf c stream = [] := by
  simp [sequencesOf, subsequence_eq_nil h]

theorem connections_concat_of_mem {c : UInt64} {stream : List Observation}
    (h : c ∈ connections stream) (q : UInt64) :
    connections (stream ++ [(c, q)]) = connections stream := by
  rw [connections, List.map_append]
  exact firstKeys_concat_of_mem h

theorem total_concat_of_mem {f : List Nat → Nat} {c q : UInt64} {stream : List Observation}
    (h : c ∈ connections stream) (growth : Nat)
    (hgrowth : f (sequencesOf c stream ++ [q.toNat]) = f (sequencesOf c stream) + growth) :
    total f (stream ++ [(c, q)]) = total f stream + growth := by
  rw [total, total, connections_concat_of_mem h]
  apply sum_map_of_changed (nodup_firstKeys _ _) h
  · rw [sequencesOf_concat_self, hgrowth]
  · intro d _ hd
    rw [sequencesOf_concat_of_ne (Ne.symm hd)]

theorem total_concat_of_connections_eq (f : List Nat → Nat) {c q : UInt64}
    {stream : List Observation} (hnot : c ∉ connections stream)
    (heq : connections (stream ++ [(c, q)]) = connections stream) :
    total f (stream ++ [(c, q)]) = total f stream := by
  rw [total, total, heq]
  apply congrArg List.sum
  apply List.map_congr_left
  intro d hd
  have hne : c ≠ d := fun hcd => hnot (hcd ▸ hd)
  rw [sequencesOf_concat_of_ne hne]

theorem total_concat_of_new {f : List Nat → Nat} {c q : UInt64} {stream : List Observation}
    (hnew : c ∉ stream.map Prod.fst)
    (heq : connections (stream ++ [(c, q)]) = connections stream ++ [c])
    (hf : f [q.toNat] = 0) : total f (stream ++ [(c, q)]) = total f stream := by
  rw [total, total, heq, List.map_append, List.sum_append]
  have hold : (connections stream).map (fun d => f (sequencesOf d (stream ++ [(c, q)]))) =
      (connections stream).map fun d => f (sequencesOf d stream) := by
    apply List.map_congr_left
    intro d hd
    have hne : c ≠ d := fun hcd => hnew (hcd ▸ mem_of_mem_firstKeys hd)
    rw [sequencesOf_concat_of_ne hne]
  rw [hold]
  simp [sequencesOf_concat_self, sequencesOf_eq_nil hnew, hf]

theorem total_late_le (stream : List Observation) :
    total Observations.late stream ≤ stream.length := by
  have hle : total Observations.late stream ≤
      ((connections stream).map fun c => (subsequence c stream).length).sum := by
    apply List.sum_le_sum
    intro c _
    exact (late_le_length _).trans_eq (List.length_map _)
  exact hle.trans (sum_length_subsequence_le (nodup_firstKeys _ _) stream)

theorem total_congr (f : List Nat → Nat) {stream other : List Observation}
    (hkeys : ∀ c, c ∈ connections other ↔ c ∈ connections stream)
    (hsame : ∀ c ∈ connections stream, sequencesOf c other = sequencesOf c stream) :
    total f other = total f stream := by
  have hperm : (connections other).Perm (connections stream) :=
    (List.perm_ext_iff_of_nodup (nodup_firstKeys _ _) (nodup_firstKeys _ _)).2 hkeys
  rw [total, total, (hperm.map _).sum_eq]
  apply congrArg List.sum
  apply List.map_congr_left
  intro c hc
  rw [hsame c hc]

theorem advance_sequenceGaps_of_lt {t : SequenceTracker} {c v q : UInt64} (h : v < q) :
    (t.advance c v q).sequenceGaps =
      t.sequenceGaps + UInt64.ofNat (q.toNat - v.toNat - 1) := by
  have hlt : v.toNat < q.toNat := UInt64.lt_iff_toNat_lt.1 h
  have hq := q.toNat_lt
  have hsub : (q - v).toNat = q.toNat - v.toNat := UInt64.toNat_sub_of_le _ _ (UInt64.le_of_lt h)
  have hone : (1 : UInt64) ≤ q - v := by rw [UInt64.le_iff_toNat_le, hsub]; simp; omega
  have hjump : (q - v - 1) = UInt64.ofNat (q.toNat - v.toNat - 1) := by
    apply UInt64.toNat.inj
    rw [UInt64.toNat_sub_of_le _ _ hone, hsub, UInt64.toNat_ofNat_of_lt' (by
      change _ < 2 ^ 64
      omega)]
    rfl
  simp only [advance]
  by_cases hwide : q - v > 1
  · rw [if_pos (by simpa using ⟨h, hwide⟩), hjump]
  · have hnarrow : q.toNat - v.toNat - 1 = 0 := by
      rw [gt_iff_lt, UInt64.lt_iff_toNat_lt, hsub] at hwide
      simp at hwide
      omega
    rw [if_neg (by simp [hwide]), hnarrow]
    simp

theorem Tracks.nil : Tracks [] {} where
  keys := rfl
  last := by intro c v h; cases h
  gaps := rfl
  late := rfl

theorem Tracks.mem_connections {stream : List Observation} {t : SequenceTracker} {c v : UInt64}
    (h : Tracks stream t) (hv : t.lastSequences.lookup c = some v) : c ∈ connections stream := by
  rw [← h.keys, ← lookup_isSome_iff, hv]
  rfl

theorem Tracks.not_mem_connections {stream : List Observation} {t : SequenceTracker} {c : UInt64}
    (h : Tracks stream t) (hnone : t.lastSequences.lookup c = none) : c ∉ connections stream := by
  rw [← h.keys, ← lookup_isSome_iff, hnone]
  simp

theorem Tracks.length_eq {stream : List Observation} {t : SequenceTracker}
    (h : Tracks stream t) : t.lastSequences.length = (connections stream).length := by
  rw [← h.keys, List.length_map]

theorem Tracks.advance_of_lt {stream : List Observation} {t : SequenceTracker} {c v q : UInt64}
    (h : Tracks stream t) (hv : t.lastSequences.lookup c = some v) (hlt : v < q) :
    Tracks (stream ++ [(c, q)]) (t.advance c v q) := by
  have hmem := h.mem_connections hv
  have hlast := h.last c v hv
  have hlarger : largest (sequencesOf c stream) < q.toNat :=
    hlast ▸ UInt64.lt_iff_toNat_lt.1 hlt
  refine ⟨?_, ?_, ?_, ?_⟩
  · simp only [SequenceTracker.advance, if_pos hlt, map_fst_setLast,
      connections_concat_of_mem hmem, h.keys]
  · intro d w hw
    simp only [SequenceTracker.advance, if_pos hlt, lookup_setLast] at hw
    by_cases hd : d = c
    · subst hd
      rw [if_pos rfl, hv] at hw
      cases hw
      rw [sequencesOf_concat_self, largest_concat, max_eq_right hlarger.le]
    · rw [if_neg hd] at hw
      rw [sequencesOf_concat_of_ne (Ne.symm hd)]
      exact h.last d w hw
  · rw [advance_sequenceGaps_of_lt hlt, h.gaps, ← UInt64.ofNat_add, hlast,
      total_concat_of_mem hmem _ (missing_concat_of_lt (sequencesOf_ne_nil hmem) hlarger)]
  · have hnot : ¬ q ≤ v := UInt64.not_le.2 hlt
    simp only [SequenceTracker.advance, if_neg hnot, h.late]
    rw [total_concat_of_mem hmem 0 (late_concat_of_lt hlarger), Nat.add_zero]

theorem Tracks.advance_of_le {stream : List Observation} {t : SequenceTracker} {c v q : UInt64}
    (h : Tracks stream t) (hv : t.lastSequences.lookup c = some v) (hle : q ≤ v) :
    Tracks (stream ++ [(c, q)]) (t.advance c v q) := by
  have hmem := h.mem_connections hv
  have hne := sequencesOf_ne_nil hmem
  have hsmaller : q.toNat ≤ largest (sequencesOf c stream) :=
    h.last c v hv ▸ UInt64.le_iff_toNat_le.1 hle
  have hnot : ¬ q > v := UInt64.not_lt.2 hle
  refine ⟨?_, ?_, ?_, ?_⟩
  · simp only [SequenceTracker.advance, if_neg hnot, connections_concat_of_mem hmem, h.keys]
  · intro d w hw
    simp only [SequenceTracker.advance, if_neg hnot] at hw
    by_cases hd : d = c
    · subst hd
      rw [sequencesOf_concat_self, largest_concat, max_eq_left hsmaller]
      exact h.last d w hw
    · rw [sequencesOf_concat_of_ne (Ne.symm hd)]
      exact h.last d w hw
  · have hno : ¬ (decide (q > v) && decide (q - v > 1)) = true := by simp [hnot]
    simp only [SequenceTracker.advance, if_neg hno, h.gaps]
    rw [total_concat_of_mem hmem 0 (missing_concat_of_le hne hsmaller), Nat.add_zero]
  · simp only [SequenceTracker.advance, if_pos hle, h.late]
    rw [total_concat_of_mem hmem 1 (late_concat_of_le hne hsmaller), UInt64.ofNat_add]
    rfl

theorem Tracks.insert {stream : List Observation} {t : SequenceTracker} {c : UInt64}
    (h : Tracks stream t) (hnone : t.lastSequences.lookup c = none)
    (hroom : t.lastSequences.length ≠ maximumSequenceStreams) (q : UInt64) :
    Tracks (stream ++ [(c, q)]) { t with lastSequences := t.lastSequences ++ [(c, q)] } := by
  have hnot := h.not_mem_connections hnone
  rw [h.length_eq] at hroom
  have hnew : c ∉ stream.map Prod.fst := not_mem_of_not_mem_firstKeys hnot hroom
  have hkeys : connections (stream ++ [(c, q)]) = connections stream ++ [c] := by
    rw [connections, List.map_append]
    exact firstKeys_concat_of_not_mem hnot hroom
  refine ⟨?_, ?_, ?_, ?_⟩
  · rw [List.map_append, h.keys, hkeys]
    rfl
  · intro d w hw
    simp only [lookup_concat] at hw
    by_cases hd : d = c
    · subst hd
      rw [hnone, if_pos rfl] at hw
      cases hw
      rw [sequencesOf_concat_self, sequencesOf_eq_nil hnew]
      simp [largest]
    · rw [if_neg hd, Option.or_none] at hw
      rw [sequencesOf_concat_of_ne (Ne.symm hd)]
      exact h.last d w hw
  · rw [total_concat_of_new hnew hkeys (missing_singleton _)]
    exact h.gaps
  · rw [total_concat_of_new hnew hkeys (late_singleton _)]
    exact h.late

theorem Tracks.refuse {stream : List Observation} {t : SequenceTracker} {c : UInt64}
    (h : Tracks stream t) (hnone : t.lastSequences.lookup c = none)
    (hfull : t.lastSequences.length = maximumSequenceStreams) (q : UInt64) :
    Tracks (stream ++ [(c, q)]) t := by
  have hnot := h.not_mem_connections hnone
  rw [h.length_eq] at hfull
  have hkeys : connections (stream ++ [(c, q)]) = connections stream := by
    rw [connections, List.map_append]
    exact firstKeys_concat_of_full c hfull
  refine ⟨by rw [h.keys, hkeys], ?_, ?_, ?_⟩
  · intro d w hw
    have hne : c ≠ d := fun heq => hnot (heq ▸ h.mem_connections hw)
    rw [sequencesOf_concat_of_ne hne]
    exact h.last d w hw
  · rw [total_concat_of_connections_eq missing hnot hkeys]
    exact h.gaps
  · rw [total_concat_of_connections_eq Observations.late hnot hkeys]
    exact h.late

theorem Tracks.observe {stream : List Observation} {t : SequenceTracker}
    (h : Tracks stream t) (entry : Observation) : Tracks (stream ++ [entry]) (t.observe entry) := by
  obtain ⟨c, q⟩ := entry
  cases hlookup : t.lastSequences.lookup c with
  | none =>
    by_cases hfull : t.lastSequences.length = maximumSequenceStreams
    · simpa [SequenceTracker.observe, track, hlookup, hfull] using h.refuse hlookup hfull q
    · simpa [SequenceTracker.observe, track, hlookup, hfull] using h.insert hlookup hfull q
  | some v =>
    have hobserve : t.observe (c, q) = t.advance c v q := by
      simp [SequenceTracker.observe, track, hlookup]
    rw [hobserve]
    by_cases hlt : v < q
    · exact h.advance_of_lt hlookup hlt
    · exact h.advance_of_le hlookup (UInt64.not_lt.1 hlt)

/-- The observation that comes next is refused exactly if its connection is not among
the first ones of any stream that continues this one. -/
theorem Tracks.track_error_iff {stream : List Observation} {t : SequenceTracker}
    (h : Tracks stream t) (c q : UInt64) (later : List Observation) :
    (∃ error, t.track c q = .error error) ↔
      c ∉ connections (stream ++ (c, q) :: later) := by
  have hextend : connections (stream ++ [(c, q)]) <+: connections (stream ++ (c, q) :: later) := by
    have hmap : (stream ++ (c, q) :: later).map Prod.fst =
        (stream ++ [(c, q)]).map Prod.fst ++ later.map Prod.fst := by simp
    rw [connections, connections, hmap]
    exact firstKeys_isPrefix _ _ _
  have hnext := h.observe (c, q)
  cases hlookup : t.lastSequences.lookup c with
  | none =>
    by_cases hfull : t.lastSequences.length = maximumSequenceStreams
    · have hkeys : connections (stream ++ [(c, q)]) = connections stream := by
        have hsame := hnext.keys
        simp only [SequenceTracker.observe, track, hlookup, hfull, if_true] at hsame
        rw [← hsame, h.keys]
      have hall : connections (stream ++ [(c, q)]) = connections (stream ++ (c, q) :: later) := by
        apply hextend.eq_of_length_le
        rw [hkeys, ← h.length_eq, hfull]
        exact length_firstKeys_le _ _
      rw [← hall, hkeys]
      simp [track, hlookup, hfull, h.not_mem_connections hlookup]
    · have hentry : (t.observe (c, q)).lastSequences.lookup c = some q := by
        simp [SequenceTracker.observe, track, hlookup, hfull, lookup_concat]
      have hmem := hnext.mem_connections hentry
      simp [track, hlookup, hfull, hextend.subset hmem]
  | some v =>
    have hmem : c ∈ connections (stream ++ [(c, q)]) := by
      rw [connections_concat_of_mem (h.mem_connections hlookup)]
      exact h.mem_connections hlookup
    simp [track, hlookup, hextend.subset hmem]

end SequenceTracker

end BengalMarket
