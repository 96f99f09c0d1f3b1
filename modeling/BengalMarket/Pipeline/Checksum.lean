import BengalMarket.Model

namespace BengalMarket

def hashOffset : UInt64 := 14695981039346656037

def hashPrime : UInt64 := 1099511628211

def hashByte (hash : UInt64) (byte : UInt8) : UInt64 := (hash ^^^ byte.toUInt64) * hashPrime

def hashBytes (hash : UInt64) (value : Bytes) : UInt64 := value.foldl hashByte hash

/-- The low `width` bytes of `bits`, least significant first: one instance of the
template per integer type, with `width` its size. -/
def hashInteger : Nat → UInt64 → UInt64 → UInt64
  | 0, hash, _ => hash
  | width + 1, hash, bits =>
    hashInteger width (hashByte hash (bits &&& 0xff).toUInt8) (bits >>> 8)

def TradeSide.toUInt64 : TradeSide → UInt64
  | .buy => 0
  | .sell => 1

def updateChecksum (hash : UInt64) (value : Trade) : UInt64 :=
  let hash := hashBytes hash value.tradeId.view
  let hash := hashBytes hash value.productId.view
  let hash := hashInteger 8 hash value.price.toUInt64
  let hash := hashInteger 8 hash value.size.toUInt64
  let hash := hashInteger 1 hash value.side.toUInt64
  hashInteger 8 hash value.sourceTimeNs

/-- The trade up to the stamp that `submit` puts on it, the one field that is not hashed. -/
def unstamped (value : Trade) : Trade := { value with enqueuedNs := 0 }

theorem foldl_updateChecksum_unstamped (hash : UInt64) (trades : List Trade) :
    (trades.map unstamped).foldl updateChecksum hash = trades.foldl updateChecksum hash := by
  induction trades generalizing hash with
  | nil => rfl
  | cons value rest ih => exact ih _

end BengalMarket
