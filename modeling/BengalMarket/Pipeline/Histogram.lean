import BengalMarket.Model

namespace BengalMarket

def bitWidth (x : UInt64) : Nat := if x = 0 then 0 else x.toNat.log2 + 1

structure LatencyHistogram where
  buckets : Vector UInt64 65 := Vector.replicate 65 0
  samples : UInt64 := 0
  minimum : UInt64 := 0xffffffffffffffff
  maximum : UInt64 := 0

namespace LatencyHistogram

def bucketOf (value : UInt64) : Fin 65 :=
  if value = 0 then 0
  else ⟨min (bitWidth (value - 1) + 1) 64, by omega⟩

def observe (h : LatencyHistogram) (value : UInt64) : LatencyHistogram where
  buckets := h.buckets.set (bucketOf value) (h.buckets.get (bucketOf value) + 1)
  samples := h.samples + 1
  minimum := min h.minimum value
  maximum := max h.maximum value

/-- The scan of `quantile` from bucket `index` on. -/
def scan (maximum target : UInt64) : Nat → UInt64 → List UInt64 → UInt64
  | _, _, [] => maximum
  | index, cumulative, bucket :: rest =>
    if target ≤ cumulative + bucket then
      if index = 0 then 0
      else if 64 < index then 0xffffffffffffffff
      else (1 : UInt64) <<< UInt64.ofNat (index - 1)
    else scan maximum target (index + 1) (cumulative + bucket) rest

def quantile (h : LatencyHistogram) (percentile : UInt64) : UInt64 :=
  scan h.maximum ((h.samples * percentile + 99) / 100) 0 0 h.buckets.toList

def summary (h : LatencyHistogram) : LatencySummary :=
  if h.samples = 0 then {}
  else
    { samples := h.samples
      minimumNs := h.minimum
      p50Ns := h.quantile 50
      p95Ns := h.quantile 95
      p99Ns := h.quantile 99
      maximumNs := h.maximum }

@[simp] theorem observe_samples (h : LatencyHistogram) (value : UInt64) :
    (h.observe value).samples = h.samples + 1 := rfl

@[simp] theorem summary_samples (h : LatencyHistogram) : h.summary.samples = h.samples := by
  unfold summary
  split
  · rename_i hzero; exact hzero.symm
  · rfl

end LatencyHistogram

end BengalMarket
