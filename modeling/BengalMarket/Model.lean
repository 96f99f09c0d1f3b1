import Mathlib.Algebra.Group.Nat.Defs
import Mathlib.Data.List.Basic

namespace BengalMarket

abbrev Bytes := List UInt8

def ascii (s : String) : Bytes := s.toList.map Char.toUInt8

def queueCapacity : Nat := 4096

def decimalScale : Nat := 100000000

/-- Only the view is modelled: the bytes of the array behind it are never read. -/
structure BoundedText (capacity : Nat) where
  view : Bytes
  size_le : view.length ≤ capacity
  deriving DecidableEq

namespace BoundedText

def empty (capacity : Nat) : BoundedText capacity := ⟨[], Nat.zero_le _⟩

/-- `none` is the `false` of the source, which leaves the text unchanged. -/
def assign (capacity : Nat) (value : Bytes) : Option (BoundedText capacity) :=
  if h : value.length ≤ capacity then some ⟨value, h⟩ else none

theorem assign_isSome_iff {capacity : Nat} {value : Bytes} :
    (assign capacity value).isSome ↔ value.length ≤ capacity := by
  unfold assign
  split <;> simp_all

end BoundedText

inductive TradeSide | buy | sell
  deriving DecidableEq

structure Trade where
  tradeId : BoundedText 24
  productId : BoundedText 20
  price : Int64
  size : Int64
  side : TradeSide
  sourceTimeNs : UInt64
  enqueuedNs : UInt64 := 0
  deriving DecidableEq

structure ParseMetrics where
  frames : UInt64 := 0
  parseErrors : UInt64 := 0
  sequenceGaps : UInt64 := 0
  outOfOrder : UInt64 := 0
  deriving DecidableEq

structure LatencySummary where
  samples : UInt64 := 0
  minimumNs : UInt64 := 0
  p50Ns : UInt64 := 0
  p95Ns : UInt64 := 0
  p99Ns : UInt64 := 0
  maximumNs : UInt64 := 0
  deriving DecidableEq

structure ReplayReport where
  engine : String
  input : ParseMetrics
  stageLatency : LatencySummary
  events : UInt64
  dropped : UInt64
  backpressure : UInt64
  checksum : UInt64
  elapsedNs : UInt64
  deriving DecidableEq

end BengalMarket
