import BengalMarket.Library.Digest
import BengalMarket.Pipeline.Checksum

namespace BengalMarket

open Digest

def integerBytes : Nat → UInt64 → Bytes
  | 0, _ => []
  | width + 1, bits => (bits &&& 0xff).toUInt8 :: integerBytes width (bits >>> 8)

def hashedBytes (value : Trade) : Bytes :=
  value.tradeId.view ++ value.productId.view ++ integerBytes 8 value.price.toUInt64 ++
    integerBytes 8 value.size.toUInt64 ++ integerBytes 1 value.side.toUInt64 ++
    integerBytes 8 value.sourceTimeNs

def hashedStream (trades : List Trade) : Bytes := trades.flatMap hashedBytes

def idLengths (value : Trade) : Nat × Nat :=
  (value.tradeId.view.length, value.productId.view.length)

theorem hashInteger_eq_foldl (width : Nat) (hash bits : UInt64) :
    hashInteger width hash bits = (integerBytes width bits).foldl hashByte hash := by
  induction width generalizing hash bits with
  | zero => rfl
  | succ width ih => exact ih _ _

theorem updateChecksum_eq_foldl (hash : UInt64) (value : Trade) :
    updateChecksum hash value = (hashedBytes value).foldl hashByte hash := by
  simp only [updateChecksum, hashedBytes, hashInteger_eq_foldl, hashBytes, List.foldl_append]

theorem checksum_eq_foldl (trades : List Trade) (hash : UInt64) :
    trades.foldl updateChecksum hash = (hashedStream trades).foldl hashByte hash := by
  rw [hashedStream, List.foldl_flatMap]
  apply congrArg (fun step => trades.foldl step hash)
  funext state value
  exact updateChecksum_eq_foldl state value

@[simp] theorem length_integerBytes (width : Nat) (bits : UInt64) :
    (integerBytes width bits).length = width := by
  induction width generalizing bits with
  | zero => rfl
  | succ width ih => simp [integerBytes, ih]

theorem integerBytes_inj {width : Nat} {a b : UInt64}
    (h : integerBytes width a = integerBytes width b) :
    a.toNat % 256 ^ width = b.toNat % 256 ^ width := by
  have low (bits : UInt64) : (bits &&& 0xff).toUInt8.toNat = bits.toNat % 256 := by
    have hmask : bits.toNat % 256 &&& 255 = bits.toNat % 256 % 256 :=
      Nat.and_two_pow_sub_one_eq_mod _ 8
    simpa using hmask
  have high (bits : UInt64) : (bits >>> 8).toNat = bits.toNat / 256 := by
    simp [Nat.shiftRight_eq_div_pow]
  induction width generalizing a b with
  | zero => simp [Nat.mod_one]
  | succ width ih =>
    obtain ⟨hfirst, hrest⟩ := List.cons.inj h
    have hmod : a.toNat % 256 = b.toNat % 256 := by rw [← low, ← low, hfirst]
    have hdiv := ih hrest
    rw [high, high] at hdiv
    rw [Nat.pow_succ', Nat.mod_mul, Nat.mod_mul, hmod, hdiv]

theorem integerBytes_eight_inj {a b : UInt64} (h : integerBytes 8 a = integerBytes 8 b) :
    a = b := by
  have hmod := integerBytes_inj h
  have hwhole (bits : UInt64) : bits.toNat % 256 ^ 8 = bits.toNat := Nat.mod_eq_of_lt bits.toNat_lt
  rw [hwhole, hwhole] at hmod
  exact UInt64.toNat.inj hmod

theorem integerBytes_int64_inj {a b : Int64}
    (h : integerBytes 8 a.toUInt64 = integerBytes 8 b.toUInt64) : a = b :=
  congrArg UInt64.toInt64 (integerBytes_eight_inj h)

theorem integerBytes_side_inj {a b : TradeSide}
    (h : integerBytes 1 a.toUInt64 = integerBytes 1 b.toUInt64) : a = b := by
  cases a <;> cases b <;> first | rfl | exact absurd h (by decide)

theorem length_hashedBytes (value : Trade) :
    (hashedBytes value).length = (idLengths value).1 + (idLengths value).2 + 25 := by
  simp [hashedBytes, idLengths, Nat.add_assoc]

theorem hashedBytes_ne_nil (value : Trade) : hashedBytes value ≠ [] := by
  intro hnil
  have hlength := length_hashedBytes value
  rw [hnil] at hlength
  simp at hlength

theorem unstamped_eq_of_hashedBytes {a b : Trade} (hlengths : idLengths a = idLengths b)
    (h : hashedBytes a = hashedBytes b) : unstamped a = unstamped b := by
  obtain ⟨⟨tradeId, _⟩, ⟨productId, _⟩, price, size, side, time, _⟩ := a
  obtain ⟨⟨tradeId', _⟩, ⟨productId', _⟩, price', size', side', time', _⟩ := b
  simp only [idLengths, Prod.mk.injEq] at hlengths
  simp only [hashedBytes, List.append_assoc] at h
  obtain ⟨htradeId, h⟩ := List.append_inj h hlengths.1
  obtain ⟨hproductId, h⟩ := List.append_inj h hlengths.2
  obtain ⟨hprice, h⟩ := List.append_inj h (by simp)
  obtain ⟨hsize, h⟩ := List.append_inj h (by simp)
  obtain ⟨hside, htime⟩ := List.append_inj h (by simp)
  cases htradeId
  cases hproductId
  cases integerBytes_int64_inj hprice
  cases integerBytes_int64_inj hsize
  cases integerBytes_side_inj hside
  cases integerBytes_eight_inj htime
  rfl

theorem idLengths_unstamped (value : Trade) : idLengths (unstamped value) = idLengths value := rfl

theorem length_eq_of_idLengths {a b : Trade} (h : idLengths a = idLengths b) :
    (hashedBytes a).length = (hashedBytes b).length := by
  rw [length_hashedBytes, length_hashedBytes, h]

def SameIdLengths (xs ys : List Trade) : Prop :=
  ∀ pair ∈ xs.zip ys, idLengths pair.1 = idLengths pair.2

theorem map_unstamped_eq {xs ys : List Trade} (hlengths : SameIdLengths xs ys)
    (h : xs.map hashedBytes = ys.map hashedBytes) : xs.map unstamped = ys.map unstamped := by
  induction xs generalizing ys with
  | nil =>
    cases ys with
    | nil => rfl
    | cons y ys => exact absurd h (by simp)
  | cons x xs ih =>
    cases ys with
    | nil => exact absurd h (by simp)
    | cons y ys =>
      rw [List.map_cons, List.map_cons] at h
      obtain ⟨hfirst, hrest⟩ := List.cons.inj h
      rw [List.map_cons, List.map_cons,
        unstamped_eq_of_hashedBytes (hlengths (x, y) (by simp)) hfirst,
        ih (fun pair hpair => hlengths pair (by simp [hpair])) hrest]

theorem sameIdLengths_of_map_unstamped {xs ys : List Trade}
    (h : xs.map unstamped = ys.map unstamped) : SameIdLengths xs ys := by
  induction xs generalizing ys with
  | nil =>
    intro pair hpair
    cases hpair
  | cons x xs ih =>
    cases ys with
    | nil => exact absurd h (by simp)
    | cons y ys =>
      rw [List.map_cons, List.map_cons] at h
      obtain ⟨hfirst, hrest⟩ := List.cons.inj h
      intro pair hpair
      rw [List.zip_cons_cons, List.mem_cons] at hpair
      rcases hpair with rfl | hpair
      · change idLengths x = idLengths y
        rw [← idLengths_unstamped x, hfirst, idLengths_unstamped]
      · exact ih hrest pair hpair

theorem hashedStream_decodes {xs ys : List Trade} (h : hashedStream xs = hashedStream ys) :
    xs.map unstamped = ys.map unstamped ↔ SameIdLengths xs ys := by
  constructor
  · exact sameIdLengths_of_map_unstamped
  · intro hlengths
    apply map_unstamped_eq hlengths
    apply map_eq_of_flatMap_eq hashedBytes_ne_nil _ h
    intro pair hpair
    exact length_eq_of_idLengths (hlengths pair hpair)

theorem hashedStream_unambiguous_iff (xs ys : List Trade) :
    (∀ hash, xs.foldl updateChecksum hash = (hashedStream xs).foldl hashByte hash) ∧
    (hashedStream xs = hashedStream ys →
      (xs.map unstamped = ys.map unstamped ↔ SameIdLengths xs ys)) ∧
    (SameIdLengths xs ys → xs.map unstamped ≠ ys.map unstamped →
      hashedStream xs ≠ hashedStream ys) :=
  ⟨checksum_eq_foldl xs, hashedStream_decodes,
    fun hlengths hne h => hne ((hashedStream_decodes h).2 hlengths)⟩

def shortId : Trade where
  tradeId := ⟨ascii "1", by decide⟩
  productId := ⟨ascii "0-USD", by decide⟩
  price := 1
  size := 1
  side := .buy
  sourceTimeNs := 1

def longId : Trade :=
  { shortId with tradeId := ⟨ascii "10", by decide⟩, productId := ⟨ascii "-USD", by decide⟩ }

theorem hashedStream_unambiguous_iff_ids :
    (hashedStream [shortId] = hashedStream [longId] ∧
      ([shortId].map unstamped = [longId].map unstamped ↔ SameIdLengths [shortId] [longId])) ∧
    SameIdLengths [shortId] [{ shortId with side := .sell }] ∧
      hashedStream [shortId] ≠ hashedStream [{ shortId with side := .sell }] :=
  have heq : hashedStream [shortId] = hashedStream [longId] := by decide
  have hsame : SameIdLengths [shortId] [{ shortId with side := .sell }] := by
    simp [SameIdLengths, idLengths]
  ⟨⟨heq, (hashedStream_unambiguous_iff _ _).2.1 heq⟩,
    hsame, (hashedStream_unambiguous_iff _ _).2.2 hsame (by decide)⟩

/-- Two outputs of one trade each, with one byte stream and so with one checksum. -/
theorem hashedStream_ambiguous :
    hashedStream [shortId] = hashedStream [longId] ∧
      [shortId].map unstamped ≠ [longId].map unstamped ∧
      [shortId].foldl updateChecksum hashOffset = [longId].foldl updateChecksum hashOffset := by
  have heq : hashedStream [shortId] = hashedStream [longId] := by decide
  refine ⟨heq, by decide, ?_⟩
  rw [checksum_eq_foldl, checksum_eq_foldl, heq]

section Hash

/-- Modulo `2 ^ 64`; the prime is odd. -/
def hashPrimeInverse : UInt64 := 14886173955864302971

theorem hashPrime_mul_inverse : hashPrime * hashPrimeInverse = 1 := by decide

theorem mul_hashPrime_injective : Function.Injective (· * hashPrime) := by
  apply Function.LeftInverse.injective (g := (· * hashPrimeInverse))
  intro hash
  change hash * hashPrime * hashPrimeInverse = hash
  rw [UInt64.mul_assoc, hashPrime_mul_inverse, UInt64.mul_one]

theorem hashByte_injective (byte : UInt8) : Function.Injective (hashByte · byte) := by
  intro hash hash' h
  exact (UInt64.xor_left_inj _).1 (mul_hashPrime_injective h)

theorem hashByte_injective_byte (hash : UInt64) : Function.Injective (hashByte hash) := by
  intro byte byte' h
  exact UInt8.toUInt64_inj.1 ((UInt64.xor_right_inj _).1 (mul_hashPrime_injective h))

theorem updateChecksum_injective (value : Trade) : Function.Injective (updateChecksum · value) := by
  intro hash hash' h
  simp only [updateChecksum_eq_foldl] at h
  exact foldl_injective hashByte_injective _ h

theorem checksum_ne_of_differOnce {xs ys : List Trade}
    (h : DifferOnce (hashedStream xs) (hashedStream ys)) (hash : UInt64) :
    xs.foldl updateChecksum hash ≠ ys.foldl updateChecksum hash := by
  rw [checksum_eq_foldl, checksum_eq_foldl]
  exact foldl_ne_of_differOnce hashByte_injective hashByte_injective_byte h hash

/-- Neither a difference of the states nor one of the streams is masked. -/
theorem checksum_never_masks :
    (∀ value hash hash', hash ≠ hash' → updateChecksum hash value ≠ updateChecksum hash' value) ∧
    ∀ xs ys, DifferOnce (hashedStream xs) (hashedStream ys) → ∀ hash,
      xs.foldl updateChecksum hash ≠ ys.foldl updateChecksum hash :=
  ⟨fun value _ _ h => (updateChecksum_injective value).ne h,
    fun _ _ h hash => checksum_ne_of_differOnce h hash⟩

theorem checksum_never_masks_side :
    updateChecksum 0 shortId ≠ updateChecksum 1 shortId ∧
      [shortId, shortId, longId].foldl updateChecksum hashOffset ≠
        [shortId, { shortId with side := .sell }, longId].foldl updateChecksum hashOffset := by
  refine ⟨checksum_never_masks.1 _ _ _ (by decide), checksum_never_masks.2 _ _ ?_ _⟩
  rw [differOnce_iff]
  exact ⟨hashedBytes shortId ++ (hashedBytes shortId).take 22, 0, 1,
    integerBytes 8 1 ++ hashedBytes longId, by decide, by decide, by decide⟩

end Hash

end BengalMarket
