import BengalMarket.Library.Json
import BengalMarket.Library.OrderStatistics
import BengalMarket.Pipeline.Quantile
import Mathlib.Algebra.Group.Nat.Defs

namespace BengalMarket.Benchmark

open OrderStatistics

/-- `none` is an unchecked index that is out of bounds. -/
def nearestRank (sorted : List UInt64) (percentile : UInt64) : Option UInt64 :=
  if sorted.isEmpty then some 0
  else
    let rank := (UInt64.ofNat sorted.length * percentile + 99) / 100
    sorted[(max 1 rank - 1).toNat]?

structure Distribution where
  samples : UInt64
  min : UInt64
  p25 : UInt64
  median : UInt64
  p75 : UInt64
  p95 : UInt64
  max : UInt64
  deriving DecidableEq

def distribution (values : List UInt64) : Option Distribution := do
  let values := sort values
  let p25 ← nearestRank values 25
  let median ← nearestRank values 50
  let p75 ← nearestRank values 75
  let p95 ← nearestRank values 95
  return {
    samples := UInt64.ofNat values.length
    min := values.head?.getD 0
    p25, median, p75, p95
    max := values.getLast?.getD 0 }

structure MeasuredRun (J : JsonLibrary) where
  engine : String
  report : J.Value

section Metrics

variable {J : JsonLibrary}

def metric (run : MeasuredRun J) (group name : String) : Option UInt64 := do
  J.uint64? (← (← run.report.at? (ascii group)).at? (ascii name))

def latencyMetric (run : MeasuredRun J) (name : String) : Option UInt64 := do
  J.uint64? (← (← (← run.report.at? (ascii "pipeline")).at? (ascii "latency_ns")).at? (ascii name))

end Metrics

structure Summary where
  elapsedNs : Distribution
  stageLatencyP50Ns : Distribution
  stageLatencyP95Ns : Distribution
  stageLatencyP99Ns : Distribution
  backpressure : Distribution
  deriving DecidableEq

def summarize {J : JsonLibrary} (runs : List (MeasuredRun J)) (engine : String) :
    Option Summary := do
  let runs := runs.filter fun run => run.engine = engine
  let elapsed ← runs.mapM fun run => metric run "pipeline" "elapsed_ns"
  let p50 ← runs.mapM fun run => latencyMetric run "p50"
  let p95 ← runs.mapM fun run => latencyMetric run "p95"
  let p99 ← runs.mapM fun run => latencyMetric run "p99"
  let backpressure ← runs.mapM fun run => metric run "pipeline" "backpressure"
  return {
    elapsedNs := ← distribution elapsed
    stageLatencyP50Ns := ← distribution p50
    stageLatencyP95Ns := ← distribution p95
    stageLatencyP99Ns := ← distribution p99
    backpressure := ← distribution backpressure }

section Ranks

variable {values : List UInt64} {percentile : UInt64}

/-- No step of the index computation wraps. -/
theorem toNat_index {length : Nat} (hlength : length < 2 ^ 57) (hpos : 1 ≤ length)
    (hlow : 1 ≤ percentile.toNat) (hhigh : percentile.toNat ≤ 100) :
    (max 1 ((UInt64.ofNat length * percentile + 99) / 100) - 1).toNat =
      rankOf length percentile.toNat := by
  have hrank := toNat_rank hlength hpos hlow hhigh
  have hle : 1 ≤ (UInt64.ofNat length * percentile + 99) / 100 := by
    rw [UInt64.le_iff_toNat_le, hrank]
    exact Nat.le_add_left _ _
  have hmax : max 1 ((UInt64.ofNat length * percentile + 99) / 100) =
      (UInt64.ofNat length * percentile + 99) / 100 := if_pos hle
  rw [hmax, UInt64.toNat_sub_of_le _ _ hle, hrank]
  rfl

theorem nearestRank_sort (percentile : UInt64) (hne : values ≠ [])
    (hlength : values.length < 2 ^ 57) (hlow : 1 ≤ percentile.toNat)
    (hhigh : percentile.toNat ≤ 100) :
    ∃ v, nearestRank (sort values) percentile = some v ∧
      HasRank values (rankOf values.length percentile.toNat) v := by
  have hpos : 1 ≤ values.length := List.length_pos_iff.2 hne
  have hempty : (sort values).isEmpty = false := by
    rw [List.isEmpty_eq_false_iff, ← List.length_pos_iff, length_sort]
    exact hpos
  have hlt : rankOf values.length percentile.toNat < (sort values).length := by
    rw [length_sort]
    exact rankOf_lt hpos hlow hhigh
  refine ⟨(sort values)[rankOf values.length percentile.toNat], ?_, hasRank_sort hlt⟩
  rw [nearestRank, hempty, if_neg Bool.false_ne_true, length_sort]
  simp only [toNat_index hlength hpos hlow hhigh]
  exact List.getElem?_eq_getElem hlt

theorem hasRank_head (hne : values ≠ []) : HasRank values 0 ((sort values).head?.getD 0) := by
  have hpos : 0 < (sort values).length := by
    rw [length_sort]
    exact List.length_pos_iff.2 hne
  rw [List.head?_eq_getElem?, List.getElem?_eq_getElem hpos]
  exact hasRank_sort hpos

theorem hasRank_last (hne : values ≠ []) :
    HasRank values (values.length - 1) ((sort values).getLast?.getD 0) := by
  have hpos : values.length - 1 < (sort values).length := by
    rw [length_sort]
    exact Nat.sub_lt (List.length_pos_iff.2 hne) Nat.one_pos
  rw [List.getLast?_eq_getElem?, length_sort, List.getElem?_eq_getElem hpos]
  exact hasRank_sort hpos

end Ranks

structure Distribution.Describes (values : List UInt64) (d : Distribution) : Prop where
  samples : d.samples.toNat = values.length
  min : IsLeast {w | w ∈ values} d.min
  p25 : IsPercentile values 25 d.p25
  median : IsPercentile values 50 d.median
  p75 : IsPercentile values 75 d.p75
  p95 : IsPercentile values 95 d.p95
  max : IsGreatest {w | w ∈ values} d.max
  ordered : d.min ≤ d.p25 ∧ d.p25 ≤ d.median ∧ d.median ≤ d.p75 ∧ d.p75 ≤ d.p95 ∧ d.p95 ≤ d.max

theorem distribution_describes {values : List UInt64} (hne : values ≠ [])
    (hlength : values.length < 2 ^ 57) :
    ∃ d, distribution values = some d ∧ d.Describes values := by
  obtain ⟨p25, h25, hrank25⟩ := nearestRank_sort 25 hne hlength (by decide) (by decide)
  obtain ⟨median, h50, hrank50⟩ :=
    nearestRank_sort 50 hne hlength (by decide) (by decide)
  obtain ⟨p75, h75, hrank75⟩ := nearestRank_sort 75 hne hlength (by decide) (by decide)
  obtain ⟨p95, h95, hrank95⟩ := nearestRank_sort 95 hne hlength (by decide) (by decide)
  have hfirst := hasRank_head hne
  have hlast := hasRank_last hne
  have hmono {p q : Nat} : p ≤ q → rankOf values.length p ≤ rankOf values.length q :=
    rankOf_mono values.length
  refine ⟨_, by simp only [distribution, h25, h50, h75, h95, Option.bind_eq_bind, Option.bind_some,
    Option.pure_def]; rfl, ?_⟩
  exact
    { samples := by
        change (UInt64.ofNat (sort values).length).toNat = _
        rw [length_sort, UInt64.toNat_ofNat_of_lt' (Nat.lt_trans hlength (by decide))]
      min := hfirst.isLeast_first
      p25 := hrank25.isPercentile hne (by decide)
      median := hrank50.isPercentile hne (by decide)
      p75 := hrank75.isPercentile hne (by decide)
      p95 := hrank95.isPercentile hne (by decide)
      max := hlast.isGreatest_last
      ordered := ⟨hfirst.mono hrank25 (Nat.zero_le _), hrank25.mono hrank50 (hmono (by decide)),
        hrank50.mono hrank75 (hmono (by decide)), hrank75.mono hrank95 (hmono (by decide)),
        hrank95.mono hlast (Nat.le_sub_one_of_lt
          (rankOf_lt (List.length_pos_iff.2 hne) (by decide) (by decide)))⟩ }

theorem mapM_eq_some_iff {α β : Type _} {l : List α} {f : α → Option β} {p : α → Prop} {g : α → β}
    (h : ∀ a ∈ l, ∀ b, f a = some b ↔ p a ∧ b = g a) (m : List β) :
    l.mapM f = some m ↔ (∀ a ∈ l, p a) ∧ m = l.map g := by
  induction l generalizing m with
  | nil => simp [eq_comm]
  | cons a l ih =>
    have hfirst := h a List.mem_cons_self
    have hrest := ih fun b hb => h b (List.mem_cons_of_mem _ hb)
    simp only [List.mapM_cons, Option.bind_eq_bind, Option.bind_eq_some_iff, Option.pure_def,
      Option.some.injEq, List.forall_mem_cons, List.map_cons]
    constructor
    · rintro ⟨b, hb, bs, hbs, rfl⟩
      obtain ⟨ha, rfl⟩ := (hfirst b).1 hb
      obtain ⟨hall, rfl⟩ := (hrest bs).1 hbs
      exact ⟨⟨ha, hall⟩, rfl⟩
    · rintro ⟨⟨ha, hall⟩, rfl⟩
      exact ⟨_, (hfirst _).2 ⟨ha, rfl⟩, _, (hrest _).2 ⟨hall, rfl⟩, rfl⟩

theorem mapM_eq_some_map {α β : Type _} {l : List α} {f : α → Option β} {g : α → β}
    (h : ∀ a ∈ l, f a = some (g a)) : l.mapM f = some (l.map g) := by
  refine (mapM_eq_some_iff (p := fun _ => True) (fun a ha b => ?_) _).2 ⟨fun _ _ => trivial, rfl⟩
  simp [h a ha, eq_comm]

section Permutations

theorem distribution_eq_of_perm {values permuted : List UInt64} (h : values.Perm permuted) :
    distribution values = distribution permuted := by
  rw [distribution, sort_eq_of_perm h]
  rfl

theorem mapM_perm {α : Type _} {l m : List α} (f : α → Option UInt64) (h : l.Perm m) :
    (l.mapM f = none ∧ m.mapM f = none) ∨
      ∃ a b, l.mapM f = some a ∧ m.mapM f = some b ∧ a.Perm b := by
  induction h with
  | nil => exact .inr ⟨[], [], rfl, rfl, .nil⟩
  | cons x _ ih =>
    cases hx : f x with
    | none => exact .inl ⟨by simp [hx], by simp [hx]⟩
    | some y =>
      rcases ih with ⟨hl, hm⟩ | ⟨a, b, hl, hm, hperm⟩
      · exact .inl ⟨by simp [hx, hl], by simp [hx, hm]⟩
      · exact .inr ⟨y :: a, y :: b, by simp [hx, hl], by simp [hx, hm], hperm.cons y⟩
  | swap x y l =>
    cases hx : f x with
    | none => exact .inl ⟨by cases hy : f y <;> simp [hx, hy], by simp [hx]⟩
    | some v =>
      cases hy : f y with
      | none => exact .inl ⟨by simp [hy], by simp [hx, hy]⟩
      | some w =>
        cases hl : l.mapM f with
        | none => exact .inl ⟨by simp [hx, hy, hl], by simp [hx, hy, hl]⟩
        | some a => exact .inr ⟨w :: v :: a, v :: w :: a, by simp [hx, hy, hl],
            by simp [hx, hy, hl], .swap v w a⟩
  | trans _ _ ih ih' =>
    rcases ih with ⟨hl, hm⟩ | ⟨a, b, hl, hm, hperm⟩
    · rcases ih' with ⟨-, hn⟩ | ⟨_, _, hm', -⟩
      · exact .inl ⟨hl, hn⟩
      · cases hm.symm.trans hm'
    · rcases ih' with ⟨hm', -⟩ | ⟨b', c, hm', hn, hperm'⟩
      · cases hm'.symm.trans hm
      · cases hm'.symm.trans hm
        exact .inr ⟨a, c, hl, hn, hperm.trans hperm'⟩

theorem bind_mapM_eq_of_perm {α β : Type _} {l m : List α} (f : α → Option UInt64)
    {rest rest' : List UInt64 → Option β} (h : l.Perm m)
    (hrest : ∀ a b, a.Perm b → rest a = rest' b) :
    (l.mapM f >>= rest) = (m.mapM f >>= rest') := by
  rcases mapM_perm f h with ⟨hl, hm⟩ | ⟨a, b, hl, hm, hperm⟩
  · rw [hl, hm, Option.bind_eq_bind, Option.bind_none, Option.bind_none]
  · rw [hl, hm, Option.bind_eq_bind, Option.bind_some, Option.bind_some]
    exact hrest a b hperm

theorem summarize_eq_of_perm {J : JsonLibrary} {runs permuted : List (MeasuredRun J)}
    (h : runs.Perm permuted) (engine : String) :
    summarize runs engine = summarize permuted engine := by
  have hfilter := h.filter fun run => run.engine = engine
  simp only [summarize]
  refine bind_mapM_eq_of_perm _ hfilter fun elapsed elapsed' helapsed => ?_
  refine bind_mapM_eq_of_perm _ hfilter fun p50 p50' hp50 => ?_
  refine bind_mapM_eq_of_perm _ hfilter fun p95 p95' hp95 => ?_
  refine bind_mapM_eq_of_perm _ hfilter fun p99 p99' hp99 => ?_
  refine bind_mapM_eq_of_perm _ hfilter fun backpressure backpressure' hbackpressure => ?_
  rw [distribution_eq_of_perm helapsed, distribution_eq_of_perm hp50,
    distribution_eq_of_perm hp95, distribution_eq_of_perm hp99,
    distribution_eq_of_perm hbackpressure]

end Permutations

/-- The percentiles of a distribution are the exact nearest ranks, whatever the order of the
runs. -/
theorem nearest_rank_exact {values : List UInt64} (hne : values ≠ [])
    (hlength : values.length < 2 ^ 57) :
    (∀ percentile : UInt64, 1 ≤ percentile.toNat → percentile.toNat ≤ 100 →
      ∃ v, nearestRank (sort values) percentile = some v ∧
        IsPercentile values percentile.toNat v) ∧
      (∃ d, distribution values = some d ∧ d.Describes values ∧
        ∀ permuted, values.Perm permuted → distribution permuted = some d) ∧
      ∀ (J : JsonLibrary) (runs permuted : List (MeasuredRun J)) (engine : String),
        runs.Perm permuted → summarize permuted engine = summarize runs engine := by
  refine ⟨fun percentile hlow hhigh => ?_, ?_, fun J runs permuted engine hperm =>
    (summarize_eq_of_perm hperm engine).symm⟩
  · obtain ⟨v, hv, hrank⟩ := nearestRank_sort _ hne hlength hlow hhigh
    exact ⟨v, hv, hrank.isPercentile hne hlow⟩
  · obtain ⟨d, hd, hdescribes⟩ := distribution_describes hne hlength
    exact ⟨d, hd, hdescribes, fun permuted hperm => (distribution_eq_of_perm hperm).symm.trans hd⟩

theorem nearest_rank_exact_three :
    (∀ percentile : UInt64, 1 ≤ percentile.toNat → percentile.toNat ≤ 100 →
      ∃ v, nearestRank (sort [7, 3, 3]) percentile = some v ∧
        IsPercentile [7, 3, 3] percentile.toNat v) ∧
      (∃ d, distribution [7, 3, 3] = some d ∧ d.Describes [7, 3, 3] ∧
        ∀ permuted, [7, 3, 3].Perm permuted → distribution permuted = some d) ∧
      ∀ (J : JsonLibrary) (runs permuted : List (MeasuredRun J)) (engine : String),
        runs.Perm permuted → summarize permuted engine = summarize runs engine :=
  nearest_rank_exact (by decide) (by decide)

section Estimates

open LatencyHistogram (ofSamples scan)

/-- The constant-space estimate rounds the exact nearest rank up to a power of two, and its scan
never runs off the buckets: what would follow the loop does not matter. -/
theorem quantile_refines_nearest_rank {samples : List UInt64} {percentile : UInt64}
    (hne : samples ≠ []) (hlength : samples.length < 2 ^ 57)
    (hbound : ∀ v ∈ samples, v.toNat ≤ 2 ^ 63) (hlow : 1 ≤ percentile.toNat)
    (hhigh : percentile.toNat ≤ 100) :
    ∃ x, nearestRank (sort samples) percentile = some x ∧
      (x = 0 → (ofSamples samples).quantile percentile = 0) ∧
      (x ≠ 0 → IsLeast {y | (∃ exponent, y = 2 ^ exponent) ∧ x.toNat ≤ y}
        ((ofSamples samples).quantile percentile).toNat) ∧
      ∀ fallback, scan fallback (((ofSamples samples).samples * percentile + 99) / 100) 0 0
        (ofSamples samples).buckets.toList = (ofSamples samples).quantile percentile := by
  have hc := LatencyHistogram.counts_ofSamples samples
  obtain ⟨x, hx, hrank⟩ := nearestRank_sort _ hne hlength hlow hhigh
  refine ⟨x, hx, ?_, ?_, fun fallback => ?_⟩
  · rintro rfl
    exact UInt64.toNat_inj.1 (hc.toNat_quantile _ hne hlength hlow hhigh hrank)
  · exact hc.isLeast_quantile hne hlength hlow hhigh hrank (hbound x hrank.mem)
  · rw [LatencyHistogram.quantile, hc.scan_target _ hne hlength hlow hhigh hrank,
      hc.scan_target _ hne hlength hlow hhigh hrank]

theorem quantile_refines_nearest_rank_three :
    ∃ x, nearestRank (sort [5, 0, 3]) 95 = some x ∧
      (x = 0 → (ofSamples [5, 0, 3]).quantile 95 = 0) ∧
      (x ≠ 0 → IsLeast {y | (∃ exponent, y = 2 ^ exponent) ∧ x.toNat ≤ y}
        ((ofSamples [5, 0, 3]).quantile 95).toNat) ∧
      ∀ fallback, scan fallback (((ofSamples [5, 0, 3]).samples * 95 + 99) / 100) 0 0
        (ofSamples [5, 0, 3]).buckets.toList = (ofSamples [5, 0, 3]).quantile 95 :=
  quantile_refines_nearest_rank (by decide) (by decide) (by simp) (by decide) (by decide)

end Estimates

end BengalMarket.Benchmark
