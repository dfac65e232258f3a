/-
Types.hpp: the integer types and limits every component shares, and the
ways a process can end early.

Identifiers, quantities and priorities are the source's own unsigned
machine integers, so every wrap the code can do happens here too.
`Price` is `int64_t` in the source. The books only compare prices and
reduce them modulo 256, which no width can disturb, so a price is an
`Int` here; the code that multiplies prices (PositionKeeper.lean) wraps
its products itself.
-/
import Mathlib.Data.UInt
import Mathlib.Tactic.Common

namespace ElectronicTrading

-- ========================================================== the typedefs

abbrev OrderID := UInt64
abbrev TickerID := UInt32
abbrev ClientID := UInt32
abbrev Price := Int
abbrev Quantity := UInt32
abbrev Priority := UInt64

/-- `enum class Side : int8_t`. A byte off the wire may name none of the
enumerators; `unnamed` holds such a value. -/
inductive Side where
  | invalid
  | buy
  | sell
  | max
  | unnamed (raw : Int)
deriving DecidableEq, Repr

/-- `sideToValue`: the enumerator's integer. -/
def sideToValue : Side → Int
  | .invalid => 0
  | .buy => 1
  | .sell => -1
  | .max => 2
  | .unnamed raw => raw

/-- `sideToIndex`: `static_cast<size_t>(side) + 1`, a 64-bit sum. -/
def sideToIndex (side : Side) : Nat := ((sideToValue side + 1) % 2 ^ 64).toNat

-- ============================================================= the limits

def matchingEngineMaxTickers : Nat := 8
def matchingEngineMaxNumClients : Nat := 256
def matchingEngineMaxOrderIds : Nat := 1024 * 1024
def matchingEngineMaxPriceLevels : Nat := 256

/-- `std::numeric_limits<OrderID>::max()`. -/
def orderIdInvalid : OrderID := 0xFFFFFFFFFFFFFFFF
def tickerIdInvalid : TickerID := 0xFFFFFFFF
def clientIdInvalid : ClientID := 0xFFFFFFFF
/-- `std::numeric_limits<Price>::max()`, the largest `int64_t`. -/
def priceInvalid : Price := 9223372036854775807
/-- `std::numeric_limits<Price>::min()`. -/
def priceMin : Price := -9223372036854775808
def quantityInvalid : Quantity := 0xFFFFFFFF
def priorityInvalid : Priority := 0xFFFFFFFFFFFFFFFF

/-- The indices of an array with an entry for each order id. Irreducible, so
that no elaboration runs through them. -/
@[irreducible] def orderIds : List OrderID :=
  (List.range matchingEngineMaxOrderIds).map UInt64.ofNat

theorem mem_orderIds {id : OrderID} :
    id ∈ orderIds ↔ id.toNat < matchingEngineMaxOrderIds := by
  unfold orderIds
  rw [List.mem_map]
  constructor
  · intro h
    obtain ⟨n, hn, rfl⟩ := h
    rw [List.mem_range] at hn
    rw [UInt64.toNat_ofNat_of_lt' (lt_trans hn (by decide))]
    exact hn
  · intro h
    exact ⟨id.toNat, List.mem_range.2 h, UInt64.ofNat_toNat⟩

theorem nodup_orderIds : orderIds.Nodup := by
  unfold orderIds
  refine List.Nodup.map_on ?_ List.nodup_range
  intro m hm n hn h
  rw [List.mem_range] at hm hn
  have hsize : matchingEngineMaxOrderIds < UInt64.size := by decide
  have h' := congrArg UInt64.toNat h
  rwa [UInt64.toNat_ofNat_of_lt' (hm.trans hsize),
    UInt64.toNat_ofNat_of_lt' (hn.trans hsize)] at h'

-- ============================================================= early ends

/-- What stops a component before its function returns: a failed
`ASSERT` or a `FATAL` (both `exit`), an `.at()` out of range inside a
`noexcept` function (`std::terminate`), a read or write through a null
pointer, or a loop that revisits a state and so never ends. -/
inductive Fault where
  /-- `allocate`: "Expected free block at index". -/
  | blockNotFree
  /-- `updateNextFreeIndex`: "Memory Pool out of space." -/
  | poolOutOfSpace
  /-- `deallocate`: the element is not of this pool. -/
  | foreignElement
  /-- `deallocate`: "Expected in use Object block". -/
  | blockNotInUse
  /-- `onMarketUpdate`: ADD for an order id that is already there. -/
  | addExistingOrder
  /-- `onMarketUpdate`: MODIFY for an order id that is not there. -/
  | modifyMissingOrder
  /-- `onMarketUpdate`: CANCEL for an order id that is not there. -/
  | cancelMissingOrder
  /-- `addToSnapshot`: ADD for an order that already exists. -/
  | snapshotAddExisting
  /-- `addToSnapshot`: MODIFY or CANCEL for a missing order. -/
  | snapshotMissing
  /-- `addToSnapshot`: the stored order does not match the update. -/
  | snapshotMismatch
  /-- `addToSnapshot`: the sequence number did not increase by one. -/
  | snapshotSequence
  /-- `processClientRequest`: FATAL on an invalid request type. -/
  | invalidRequestType
  /-- `addClientRequest`: FATAL "Too many requests". -/
  | tooManyRequests
  /-- `OrderServer::run`: no socket for the response's client. -/
  | noClientSocket
  /-- `toString`: FATAL "Bids/Asks not sorted". -/
  | notSorted
  /-- A `memcpy` whose source and destination overlap. -/
  | overlappingCopy
  | outOfRange
  | nullDereference
  | endlessLoop
deriving DecidableEq, Repr

/-- A member function of a component with state `σ`. -/
abbrev Prog (σ α : Type) := EStateM Fault σ α

/-- `ASSERT(cond, msg)`. -/
def assert {σ : Type} (cond : Bool) (fault : Fault) : Prog σ Unit :=
  if cond then pure () else throw fault

@[simp] theorem run_assert {σ : Type} (cond : Bool) (fault : Fault) (s : σ) :
    (assert cond fault : Prog σ Unit).run s
      = if cond then .ok () s else .error fault s := by
  unfold assert
  split <;> rfl

end ElectronicTrading
