import BengalMarket.Library.OrderStatistics
import BengalMarket.Pipeline.Histogram
import Mathlib.Data.Nat.Basic

namespace BengalMarket.LatencyHistogram

open OrderStatistics

def ofSamples (samples : List UInt64) : LatencyHistogram := samples.foldl observe {}

/-- The upper bound of a bucket; the last one also has the larger samples. -/
def bound : Nat → Nat
  | 0 => 0
  | bucket + 1 => 2 ^ bucket

def answer (index : Nat) : UInt64 :=
  if index = 0 then 0
  else if 64 < index then 0xffffffffffffffff
  else (1 : UInt64) <<< UInt64.ofNat (index - 1)

section Buckets

theorem bound_mono {a b : Nat} (h : a ≤ b) : bound a ≤ bound b := by
  cases a with
  | zero => exact Nat.zero_le _
  | succ a =>
    obtain ⟨b, rfl⟩ := Nat.exists_eq_add_of_le' (Nat.le_trans (Nat.succ_pos a) h)
    exact Nat.pow_le_pow_right Nat.two_pos (Nat.le_of_succ_le_succ h)

theorem toNat_answer {index : Nat} (h : index ≤ 64) : (answer index).toNat = bound index := by
  cases index with
  | zero => rfl
  | succ exponent =>
    have hlt : 2 ^ exponent < 2 ^ 64 := Nat.pow_lt_pow_right (by decide) h
    rw [answer, if_neg (Nat.succ_ne_zero _), if_neg (Nat.not_lt.2 h), Nat.add_sub_cancel,
      UInt64.toNat_shiftLeft, UInt64.toNat_ofNat_of_lt' (Nat.lt_trans h (by decide)),
      Nat.mod_eq_of_lt h]
    change 1 <<< exponent % 2 ^ 64 = 2 ^ exponent
    rw [Nat.one_shiftLeft, Nat.mod_eq_of_lt hlt]

theorem bitWidth_le_iff (x : UInt64) (width : Nat) : bitWidth x ≤ width ↔ x.toNat < 2 ^ width := by
  unfold bitWidth
  split
  next hzero => exact iff_of_true (Nat.zero_le _) (hzero ▸ Nat.two_pow_pos width)
  next hne =>
    have hpos : x.toNat ≠ 0 := fun hzero => hne (UInt64.toNat_inj.1 hzero)
    rw [Nat.succ_le_iff, Nat.log2_lt hpos]

theorem bucketOf_le_iff (value : UInt64) {bucket : Nat} (h : bucket < 64) :
    (bucketOf value : Nat) ≤ bucket ↔ value.toNat ≤ bound bucket := by
  unfold bucketOf
  split
  next hzero => simp [hzero]
  next hne =>
    have hpos : 1 ≤ value.toNat :=
      Nat.one_le_iff_ne_zero.2 fun hzero => hne (UInt64.toNat_inj.1 hzero)
    have hone : (1 : UInt64) ≤ value := UInt64.le_iff_toNat_le.2 hpos
    have hpred : (value - 1).toNat = value.toNat - 1 := UInt64.toNat_sub_of_le _ _ hone
    cases bucket with
    | zero => simp [bound]; omega
    | succ bucket =>
      have hwidth := bitWidth_le_iff (value - 1) bucket
      rw [hpred] at hwidth
      simp only [bound]
      omega

theorem bucketOf_le_last (value : UInt64) : (bucketOf value : Nat) ≤ 64 :=
  Nat.le_of_lt_succ (bucketOf value).isLt

theorem bucketOf_mono {a b : UInt64} (h : a ≤ b) : (bucketOf a : Nat) ≤ bucketOf b := by
  by_cases hlast : (bucketOf b : Nat) < 64
  · rw [bucketOf_le_iff a hlast]
    exact Nat.le_trans (UInt64.le_iff_toNat_le.1 h) ((bucketOf_le_iff b hlast).1 (Nat.le_refl _))
  · exact Nat.le_trans (bucketOf_le_last a) (Nat.le_of_not_lt hlast)

/-- The answer for a value is a power of two that only the clamp keeps below the value. -/
theorem le_bound_bucketOf (value : UInt64) : min value.toNat (2 ^ 63) ≤ bound (bucketOf value) := by
  by_cases hlast : (bucketOf value : Nat) < 64
  · exact Nat.le_trans (Nat.min_le_left _ _) ((bucketOf_le_iff value hlast).1 (Nat.le_refl _))
  · have hsame : (bucketOf value : Nat) = 64 :=
      Nat.le_antisymm (bucketOf_le_last value) (Nat.le_of_not_lt hlast)
    rw [hsame]
    exact Nat.min_le_right _ _

theorem bound_bucketOf_le {value : UInt64} {exponent : Nat} (h : value.toNat ≤ 2 ^ exponent) :
    bound (bucketOf value) ≤ 2 ^ exponent := by
  by_cases hlast : exponent + 1 < 64
  · exact bound_mono ((bucketOf_le_iff value hlast).2 h)
  · have hlarge : 63 ≤ exponent := by omega
    exact Nat.le_trans (bound_mono (bucketOf_le_last value))
      (Nat.pow_le_pow_right Nat.two_pos hlarge)

end Buckets

structure Counts (l : List UInt64) (h : LatencyHistogram) : Prop where
  bucket : ∀ b : Fin 65, h.buckets[b] = UInt64.ofNat (l.countP fun v => bucketOf v = b)
  samples : h.samples = UInt64.ofNat l.length
  le_minimum : ∀ v ∈ l, h.minimum ≤ v
  minimum_mem : h.minimum ∈ 0xffffffffffffffff :: l
  le_maximum : ∀ v ∈ l, v ≤ h.maximum
  maximum_mem : h.maximum ∈ 0 :: l

section Observations

theorem max_spec (a b : UInt64) : a ≤ max a b ∧ b ≤ max a b ∧ (max a b = a ∨ max a b = b) := by
  have hmax : max a b = if a ≤ b then b else a := rfl
  rw [hmax]
  split
  next hle => exact ⟨hle, Std.le_refl b, .inr rfl⟩
  next hnot => exact ⟨Std.le_refl a, Std.le_of_not_ge hnot, .inl rfl⟩

variable {l : List UInt64} {h : LatencyHistogram}

theorem counts_empty : Counts [] {} where
  bucket b := by simp
  samples := rfl
  le_minimum := by simp
  minimum_mem := List.mem_cons_self
  le_maximum := by simp
  maximum_mem := List.mem_cons_self

theorem Counts.observe (hc : Counts l h) (value : UInt64) :
    Counts (l ++ [value]) (h.observe value) where
  bucket b := by
    simp only [LatencyHistogram.observe, List.countP_append, List.countP_singleton,
      decide_eq_true_eq, UInt64.ofNat_add, ← hc.bucket]
    change (h.buckets.set _ _)[(b : Nat)] = _
    rw [Vector.getElem_set]
    by_cases hsame : bucketOf value = b
    · rw [if_pos (congrArg Fin.val hsame), if_pos hsame, hsame]
      rfl
    · rw [if_neg fun heq => hsame (Fin.ext heq), if_neg hsame]
      exact (UInt64.add_zero _).symm
  samples := by
    rw [observe_samples, hc.samples, List.length_append, UInt64.ofNat_add]
    rfl
  le_minimum v hv := by
    rcases List.mem_append.1 hv with hv | hv
    · exact Std.le_trans Std.min_le_left (hc.le_minimum v hv)
    · rw [List.mem_singleton.1 hv]
      exact Std.min_le_right
  minimum_mem := by
    have hcases : min h.minimum value = h.minimum ∨ min h.minimum value = value := Std.min_eq_or
    rcases hcases with heq | heq
    · change min h.minimum value ∈ _
      rw [heq, ← List.cons_append]
      exact List.mem_append_left _ hc.minimum_mem
    · change min h.minimum value ∈ _
      rw [heq]
      simp
  le_maximum v hv := by
    rcases List.mem_append.1 hv with hv | hv
    · exact Std.le_trans (hc.le_maximum v hv) (max_spec _ _).1
    · rw [List.mem_singleton.1 hv]
      exact (max_spec _ _).2.1
  maximum_mem := by
    rcases (max_spec h.maximum value).2.2 with heq | heq
    · change max h.maximum value ∈ _
      rw [heq, ← List.cons_append]
      exact List.mem_append_left _ hc.maximum_mem
    · change max h.maximum value ∈ _
      rw [heq]
      simp

theorem counts_ofSamples (l : List UInt64) : Counts l (ofSamples l) := by
  have hall : ∀ (done rest : List UInt64) (h : LatencyHistogram), Counts done h →
      Counts (done ++ rest) (rest.foldl LatencyHistogram.observe h) := by
    intro done rest
    induction rest generalizing done with
    | nil =>
      intro h hc
      rwa [List.append_nil]
    | cons value rest ih =>
      intro h hc
      have hnext := ih (done ++ [value]) (h.observe value) (hc.observe value)
      rwa [List.append_assoc] at hnext
  exact hall [] l {} counts_empty

theorem Counts.isLeast (hc : Counts l h) (hne : l ≠ []) : IsLeast {v | v ∈ l} h.minimum := by
  refine ⟨?_, hc.le_minimum⟩
  rcases List.mem_cons.1 hc.minimum_mem with htop | hmem
  · obtain ⟨v, hv⟩ := List.exists_mem_of_ne_nil l hne
    have hle : v ≤ h.minimum := by
      rw [htop, UInt64.le_iff_toNat_le]
      exact Nat.le_of_lt_succ v.toNat_lt
    exact Std.le_antisymm (hc.le_minimum v hv) hle ▸ hv
  · exact hmem

theorem Counts.isGreatest (hc : Counts l h) (hne : l ≠ []) : IsGreatest {v | v ∈ l} h.maximum := by
  refine ⟨?_, hc.le_maximum⟩
  rcases List.mem_cons.1 hc.maximum_mem with hzero | hmem
  · obtain ⟨v, hv⟩ := List.exists_mem_of_ne_nil l hne
    have hle : h.maximum ≤ v := hzero ▸ UInt64.zero_le
    exact Std.le_antisymm hle (hc.le_maximum v hv) ▸ hv
  · exact hmem

end Observations

section Scans

variable {l : List UInt64} {h : LatencyHistogram}

def before (l : List UInt64) (index : Nat) : Nat := l.countP fun v => (bucketOf v : Nat) < index

theorem before_zero (l : List UInt64) : before l 0 = 0 := by simp [before]

theorem before_succ (l : List UInt64) (bucket : Fin 65) :
    before l (bucket + 1) = before l bucket + l.countP fun v => bucketOf v = bucket := by
  unfold before
  induction l with
  | nil => rfl
  | cons v l ih =>
    have hsame : bucketOf v = bucket ↔ (bucketOf v : Nat) = bucket := Fin.ext_iff
    simp only [List.countP_cons, ih, decide_eq_true_eq, hsame]
    split_ifs <;> omega

theorem before_le_length (l : List UInt64) (index : Nat) : before l index ≤ l.length :=
  List.countP_le_length

theorem Counts.scan_drop (hc : Counts l h) (fallback target : UInt64) {index : Nat}
    (hlt : index < 65) :
    scan fallback target index (UInt64.ofNat (before l index)) (h.buckets.toList.drop index) =
      if target ≤ UInt64.ofNat (before l (index + 1)) then answer index
      else scan fallback target (index + 1) (UInt64.ofNat (before l (index + 1)))
        (h.buckets.toList.drop (index + 1)) := by
  have hdrop : h.buckets.toList.drop index =
      h.buckets[index] :: h.buckets.toList.drop (index + 1) := by
    rw [List.drop_eq_getElem_cons (by rwa [Vector.length_toList]), Vector.getElem_toList]
  have hcumulative : UInt64.ofNat (before l index) + h.buckets[index] =
      UInt64.ofNat (before l (index + 1)) := by
    have hbucket : h.buckets[index] = _ := hc.bucket ⟨index, hlt⟩
    have hsucc := before_succ l ⟨index, hlt⟩
    rw [hbucket, ← UInt64.ofNat_add, ← hsucc]
  rw [hdrop, scan, hcumulative]
  rfl

theorem Counts.scan_eq (hc : Counts l h) (fallback : UInt64) {target : UInt64} {stop : Nat}
    (hstop : stop ≤ 64) (hreach : target ≤ UInt64.ofNat (before l (stop + 1)))
    (hearlier : ∀ index < stop, ¬ target ≤ UInt64.ofNat (before l (index + 1)))
    {index : Nat} (hindex : index ≤ stop) :
    scan fallback target index (UInt64.ofNat (before l index)) (h.buckets.toList.drop index) =
      answer stop := by
  obtain ⟨gap, rfl⟩ := Nat.exists_eq_add_of_le hindex
  induction gap generalizing index with
  | zero =>
    rw [Nat.add_zero] at hstop hreach ⊢
    rw [hc.scan_drop _ _ (Nat.lt_succ_of_le hstop), if_pos hreach]
  | succ gap ih =>
    rw [hc.scan_drop _ _ (by omega), if_neg (hearlier index (by omega))]
    have hsame : index + 1 + gap = index + (gap + 1) := by omega
    rw [← hsame] at hstop hreach hearlier ⊢
    exact ih hstop hreach hearlier (Nat.le_add_right _ _)

theorem lt_before_iff {k : Nat} {x : UInt64} (hrank : HasRank l k x) {bucket : Nat}
    (hbucket : bucket ≤ 64) : k < before l (bucket + 1) ↔ (bucketOf x : Nat) ≤ bucket := by
  by_cases hlast : bucket < 64
  · have hbound : (UInt64.ofNat (bound bucket)).toNat = bound bucket := by
      rw [← toNat_answer hbucket, UInt64.ofNat_toNat]
    have hle (v : UInt64) : (bucketOf v : Nat) ≤ bucket ↔ v ≤ UInt64.ofNat (bound bucket) := by
      rw [UInt64.le_iff_toNat_le, hbound, bucketOf_le_iff v hlast]
    have hcount : before l (bucket + 1) = countAtMost l (UInt64.ofNat (bound bucket)) := by
      simp only [before, countAtMost, Nat.lt_succ_iff, hle]
    rw [hcount, hle, hrank.le_iff]
  · have hsame : bucket = 64 := Nat.le_antisymm hbucket (Nat.le_of_not_lt hlast)
    subst hsame
    have hall : before l 65 = l.length :=
      List.countP_eq_length.2 fun v _ => decide_eq_true (bucketOf v).isLt
    rw [hall]
    exact iff_of_true (Nat.lt_of_lt_of_le ((hrank.le_iff x).1 (Std.le_refl x))
      (countAtMost_le_length l x)) (bucketOf_le_last x)

theorem Counts.target_le_iff (hc : Counts l h) {percentile x : UInt64} {bucket : Nat}
    (hne : l ≠ []) (hlength : l.length < 2 ^ 57) (hlow : 1 ≤ percentile.toNat)
    (hhigh : percentile.toNat ≤ 100) (hrank : HasRank l (rankOf l.length percentile.toNat) x)
    (hbucket : bucket ≤ 64) :
    (h.samples * percentile + 99) / 100 ≤ UInt64.ofNat (before l (bucket + 1)) ↔
      (bucketOf x : Nat) ≤ bucket := by
  have hcount := before_le_length l (bucket + 1)
  rw [UInt64.le_iff_toNat_le, hc.samples, UInt64.toNat_ofNat_of_lt'
    (Nat.lt_of_le_of_lt hcount (Nat.lt_trans hlength (by decide))),
    toNat_rank hlength (List.length_pos_iff.2 hne) hlow hhigh, Nat.succ_le_iff,
    lt_before_iff hrank hbucket]

theorem Counts.scan_target (hc : Counts l h) {percentile x : UInt64} (fallback : UInt64)
    (hne : l ≠ []) (hlength : l.length < 2 ^ 57) (hlow : 1 ≤ percentile.toNat)
    (hhigh : percentile.toNat ≤ 100) (hrank : HasRank l (rankOf l.length percentile.toNat) x) :
    scan fallback ((h.samples * percentile + 99) / 100) 0 0 h.buckets.toList =
      answer (bucketOf x) := by
  have hiff {bucket : Nat} := @hc.target_le_iff _ _ percentile x bucket hne hlength hlow hhigh hrank
  have hlast := bucketOf_le_last x
  have hscan := hc.scan_eq fallback hlast ((hiff hlast).2 (Nat.le_refl _))
    (fun index hindex hle => absurd ((hiff (by omega)).1 hle) (by omega)) (Nat.zero_le _)
  rwa [before_zero] at hscan

theorem Counts.toNat_quantile (hc : Counts l h) (percentile : UInt64) {x : UInt64} (hne : l ≠ [])
    (hlength : l.length < 2 ^ 57) (hlow : 1 ≤ percentile.toNat) (hhigh : percentile.toNat ≤ 100)
    (hrank : HasRank l (rankOf l.length percentile.toNat) x) :
    (h.quantile percentile).toNat = bound (bucketOf x) := by
  rw [quantile, hc.scan_target _ hne hlength hlow hhigh hrank, toNat_answer (bucketOf_le_last x)]

end Scans

section Summaries

variable {l : List UInt64} {h : LatencyHistogram}

/-- A percentile is the least power of two that its exact value does not exceed. -/
theorem Counts.isLeast_quantile (hc : Counts l h) {percentile x : UInt64} (hne : l ≠ [])
    (hlength : l.length < 2 ^ 57) (hlow : 1 ≤ percentile.toNat) (hhigh : percentile.toNat ≤ 100)
    (hrank : HasRank l (rankOf l.length percentile.toNat) x) (hbound : x.toNat ≤ 2 ^ 63)
    (hpos : x ≠ 0) : IsLeast {y | (∃ exponent, y = 2 ^ exponent) ∧ x.toNat ≤ y}
      (h.quantile percentile).toNat := by
  rw [hc.toNat_quantile percentile hne hlength hlow hhigh hrank]
  have hle := le_bound_bucketOf x
  rw [Nat.min_eq_left hbound] at hle
  refine ⟨⟨?_, hle⟩, ?_⟩
  · cases hbucket : (bucketOf x : Nat) with
    | zero =>
      rw [hbucket] at hle
      exact absurd (UInt64.toNat_inj.1 (Nat.le_zero.1 hle)) hpos
    | succ exponent => exact ⟨exponent, rfl⟩
  · rintro _ ⟨⟨exponent, rfl⟩, hexponent⟩
    exact bound_bucketOf_le hexponent

theorem exists_hasRank (hne : l ≠ []) (percentile : Nat) (hlow : 1 ≤ percentile)
    (hhigh : percentile ≤ 100) : ∃ x, HasRank l (rankOf l.length percentile) x := by
  have hlt : rankOf l.length percentile < (sort l).length := by
    rw [length_sort]
    exact rankOf_lt (List.length_pos_iff.2 hne) hlow hhigh
  exact ⟨_, hasRank_sort hlt⟩

theorem summary_of_ne (hsamples : h.samples ≠ 0) : h.summary =
    { samples := h.samples, minimumNs := h.minimum, p50Ns := h.quantile 50,
      p95Ns := h.quantile 95, p99Ns := h.quantile 99, maximumNs := h.maximum } :=
  if_neg hsamples

/-- The percentiles of a summary are in order.  Rounding up may carry them past the maximum, but
not past a power of two, and the clamp may leave them below a minimum above `2 ^ 63`. -/
theorem summary_ordered (hne : l ≠ []) (hlength : l.length < 2 ^ 57) :
    IsLeast {v | v ∈ l} (ofSamples l).summary.minimumNs ∧
      IsGreatest {v | v ∈ l} (ofSamples l).summary.maximumNs ∧
      min (ofSamples l).summary.minimumNs.toNat (2 ^ 63) ≤ (ofSamples l).summary.p50Ns.toNat ∧
      (ofSamples l).summary.p50Ns ≤ (ofSamples l).summary.p95Ns ∧
      (ofSamples l).summary.p95Ns ≤ (ofSamples l).summary.p99Ns ∧
      ((ofSamples l).summary.maximumNs = 0 → (ofSamples l).summary.p99Ns = 0) ∧
      ∀ exponent, (ofSamples l).summary.maximumNs.toNat ≤ 2 ^ exponent →
        (ofSamples l).summary.p99Ns.toNat ≤ 2 ^ exponent := by
  have hc := counts_ofSamples l
  have hsamples : (ofSamples l).samples ≠ 0 := by
    have hpos := List.length_pos_iff.2 hne
    intro hzero
    have hlen : (UInt64.ofNat l.length).toNat = 0 := by rw [← hc.samples, hzero]; rfl
    rw [UInt64.toNat_ofNat_of_lt' (Nat.lt_trans hlength (by decide))] at hlen
    exact absurd hlen (Nat.ne_of_gt hpos)
  rw [summary_of_ne hsamples]
  obtain ⟨x50, h50⟩ := exists_hasRank hne 50 (by decide) (by decide)
  obtain ⟨x95, h95⟩ := exists_hasRank hne 95 (by decide) (by decide)
  obtain ⟨x99, h99⟩ := exists_hasRank hne 99 (by decide) (by decide)
  have hp50 := hc.toNat_quantile 50 hne hlength (by decide) (by decide) h50
  have hp95 := hc.toNat_quantile 95 hne hlength (by decide) (by decide) h95
  have hp99 := hc.toNat_quantile 99 hne hlength (by decide) (by decide) h99
  have hle5095 := h50.mono h95 (rankOf_mono _ (by decide))
  have hle9599 := h95.mono h99 (rankOf_mono _ (by decide))
  refine ⟨hc.isLeast hne, hc.isGreatest hne, ?_, ?_, ?_, fun hzero => ?_, fun exponent hle => ?_⟩
  · have hmin : (ofSamples l).minimum.toNat ≤ x50.toNat :=
      UInt64.le_iff_toNat_le.1 (hc.le_minimum x50 h50.mem)
    have hclamped : min (ofSamples l).minimum.toNat (2 ^ 63) ≤ min x50.toNat (2 ^ 63) := by omega
    rw [hp50]
    exact Nat.le_trans hclamped (le_bound_bucketOf x50)
  · rw [UInt64.le_iff_toNat_le, hp50, hp95]
    exact bound_mono (bucketOf_mono hle5095)
  · rw [UInt64.le_iff_toNat_le, hp95, hp99]
    exact bound_mono (bucketOf_mono hle9599)
  · have hx : x99 = 0 := by
      have hle : x99.toNat ≤ (ofSamples l).maximum.toNat :=
        UInt64.le_iff_toNat_le.1 (hc.le_maximum x99 h99.mem)
      change (ofSamples l).maximum = 0 at hzero
      rw [hzero] at hle
      exact UInt64.toNat_inj.1 (Nat.le_zero.1 hle)
    apply UInt64.toNat_inj.1
    rw [hp99, hx]
    rfl
  · have hmax : x99.toNat ≤ (ofSamples l).maximum.toNat :=
      UInt64.le_iff_toNat_le.1 (hc.le_maximum x99 h99.mem)
    rw [hp99]
    exact bound_bucketOf_le (Nat.le_trans hmax hle)

theorem summary_ordered_three :
    let summary := (ofSamples [1000, 3, 5]).summary
    IsLeast {v | v ∈ [1000, 3, 5]} summary.minimumNs ∧
      IsGreatest {v | v ∈ [1000, 3, 5]} summary.maximumNs ∧
      min summary.minimumNs.toNat (2 ^ 63) ≤ summary.p50Ns.toNat ∧
      summary.p50Ns ≤ summary.p95Ns ∧ summary.p95Ns ≤ summary.p99Ns ∧
      (summary.maximumNs = 0 → summary.p99Ns = 0) ∧
      ∀ exponent, summary.maximumNs.toNat ≤ 2 ^ exponent →
        summary.p99Ns.toNat ≤ 2 ^ exponent :=
  summary_ordered (by decide) (by decide)

/-- A single sample of 3 has percentiles of 4. -/
theorem percentile_above_maximum :
    ¬ ∀ l : List UInt64, l ≠ [] → l.length < 2 ^ 57 →
      (ofSamples l).summary.minimumNs ≤ (ofSamples l).summary.p50Ns ∧
        (ofSamples l).summary.p50Ns ≤ (ofSamples l).summary.p95Ns ∧
        (ofSamples l).summary.p95Ns ≤ (ofSamples l).summary.p99Ns ∧
        (ofSamples l).summary.p99Ns ≤ (ofSamples l).summary.maximumNs := by
  intro hall
  have hle := (hall [3] (by decide) (by decide)).2.2.2
  exact absurd hle (by decide)

end Summaries

end BengalMarket.LatencyHistogram
