/-
How the messages between a client and the order server, and the market
updates, lie on the wire: the packed structs of ClientRequest.hpp,
ClientResponse.hpp and MarketUpdate.hpp (`#pragma pack(push, 1)`), on a
little-endian machine.

A struct is its members in the order of their declaration. `Typed` says
which values of the model's wider types (a price is an `Int` here, a
byte that names no enumerator is `unnamed`) the source's types have.
-/
import ElectronicTrading.Exchange.Messages
import ElectronicTrading.Lib.Packed

namespace ElectronicTrading

open Packed

namespace Wire

-- ========================================================= the enumerations

/-- The request type that a byte off the wire is taken for. -/
def clientRequestTypeOfByte : UInt8 → ClientRequestType
  | 0 => .invalid
  | 1 => .new
  | 2 => .cancel
  | raw => .unnamed raw

/-- And the byte that goes onto it. -/
def byteOfClientRequestType : ClientRequestType → UInt8
  | .invalid => 0
  | .new => 1
  | .cancel => 2
  | .unnamed raw => raw

/-- The same for the response types. -/
def clientResponseTypeOfByte : UInt8 → ClientResponseType
  | 0 => .invalid
  | 1 => .accepted
  | 2 => .cancelled
  | 3 => .filled
  | 4 => .cancelRejected
  | raw => .unnamed raw

def byteOfClientResponseType : ClientResponseType → UInt8
  | .invalid => 0
  | .accepted => 1
  | .cancelled => 2
  | .filled => 3
  | .cancelRejected => 4
  | .unnamed raw => raw

/-- Nothing reads a byte that names no enumerator here. -/
def marketUpdateTypeOfByte : UInt8 → MarketUpdateType
  | 1 => .clear
  | 2 => .add
  | 3 => .modify
  | 4 => .cancel
  | 5 => .trade
  | 6 => .snapshotStart
  | 7 => .snapshotEnd
  | _ => .invalid

def byteOfMarketUpdateType : MarketUpdateType → UInt8
  | .invalid => 0
  | .clear => 1
  | .add => 2
  | .modify => 3
  | .cancel => 4
  | .trade => 5
  | .snapshotStart => 6
  | .snapshotEnd => 7

/-- The side of a signed byte. -/
def sideOfValue (value : Int) : Side :=
  if value = 0 then .invalid
  else if value = 1 then .buy
  else if value = -1 then .sell
  else if value = 2 then .max
  else .unnamed value

/-- An enumeration is one byte. -/
def clientRequestType : Codec ClientRequestType :=
  Codec.uint8.embed clientRequestTypeOfByte byteOfClientRequestType

def clientResponseType : Codec ClientResponseType :=
  Codec.uint8.embed clientResponseTypeOfByte byteOfClientResponseType

def marketUpdateType : Codec MarketUpdateType :=
  Codec.uint8.embed marketUpdateTypeOfByte byteOfMarketUpdateType

/-- `enum class Side : int8_t`. -/
def side : Codec Side := (Codec.int 1).embed sideOfValue sideToValue

/-- `int64_t`. -/
def price : Codec Price := Codec.int 8

-- ============================================================= the messages

/-- The members of `MatchingEngineClientRequest`, in the order in which the
source declares them. -/
def request : Codec MatchingEngineClientRequest :=
  (clientRequestType.pair (Codec.uint32.pair (Codec.uint32.pair
    (Codec.uint64.pair (side.pair (price.pair Codec.uint32)))))).iso
    (fun (type, clientId, tickerId, orderId, side, price, quantity) =>
      ⟨type, clientId, tickerId, orderId, side, price, quantity⟩)
    (fun r => (r.type, r.clientId, r.tickerId, r.orderId, r.side, r.price,
      r.quantity))
    fun _ => rfl

/-- Those of `MatchingEngineClientResponse`. -/
def response : Codec MatchingEngineClientResponse :=
  (clientResponseType.pair (Codec.uint32.pair (Codec.uint32.pair
    (Codec.uint64.pair (Codec.uint64.pair (side.pair (price.pair
      (Codec.uint32.pair Codec.uint32)))))))).iso
    (fun (type, clientId, tickerId, clientOrderId, marketOrderId, side, price,
        execQuantity, leavesQuantity) =>
      ⟨type, clientId, tickerId, clientOrderId, marketOrderId, side, price,
        execQuantity, leavesQuantity⟩)
    (fun r => (r.type, r.clientId, r.tickerId, r.clientOrderId,
      r.marketOrderId, r.side, r.price, r.execQuantity, r.leavesQuantity))
    fun _ => rfl

/-- Those of `MatchingEngineMarketUpdate`. -/
def marketUpdate : Codec MatchingEngineMarketUpdate :=
  (marketUpdateType.pair (Codec.uint64.pair (Codec.uint32.pair
    (side.pair (price.pair (Codec.uint32.pair Codec.uint64)))))).iso
    (fun (type, orderId, tickerId, side, price, quantity, priority) =>
      ⟨type, orderId, tickerId, side, price, quantity, priority⟩)
    (fun u => (u.type, u.orderId, u.tickerId, u.side, u.price, u.quantity,
      u.priority))
    fun _ => rfl

/-- A request behind its sequence number. -/
def clientRequest : Codec OrderManagementClientRequest :=
  (Codec.uint64.pair request).iso
    (fun (sequenceNumber, meClientRequest) =>
      ⟨sequenceNumber, meClientRequest⟩)
    (fun r => (r.sequenceNumber, r.meClientRequest))
    fun _ => rfl

/-- A response behind its sequence number. -/
def clientResponse : Codec OrderManagementClientResponse :=
  (Codec.uint64.pair response).iso
    (fun (sequenceNumber, meClientResponse) =>
      ⟨sequenceNumber, meClientResponse⟩)
    (fun r => (r.sequenceNumber, r.meClientResponse))
    fun _ => rfl

example : (clientRequest.size, clientResponse.size, marketUpdate.size)
    = (38, 50, 34) := rfl

-- =============================================================== the values

/-- An `int8_t` that is an enumerator or none. -/
def SideTyped : Side → Prop
  | .unnamed raw => -128 ≤ raw ∧ raw < 128 ∧ raw ∉ [0, 1, -1, 2]
  | _ => True

/-- An `int64_t`. -/
def PriceTyped (price : Price) : Prop := -2 ^ 63 ≤ price ∧ price < 2 ^ 63

instance (side : Side) : Decidable (SideTyped side) :=
  match side with
  | .unnamed raw =>
      inferInstanceAs (Decidable (-128 ≤ raw ∧ raw < 128 ∧ raw ∉ [0, 1, -1, 2]))
  | .invalid | .buy | .sell | .max => .isTrue trivial

instance (price : Price) : Decidable (PriceTyped price) :=
  inferInstanceAs (Decidable (-2 ^ 63 ≤ price ∧ price < 2 ^ 63))

/-- A request of the source's types. -/
structure RequestTyped (r : MatchingEngineClientRequest) : Prop where
  type : ∀ raw, r.type = .unnamed raw → raw ∉ [0, 1, 2]
  side : SideTyped r.side
  price : PriceTyped r.price

/-- A response of the source's types. -/
structure ResponseTyped (r : MatchingEngineClientResponse) : Prop where
  type : ∀ raw, r.type = .unnamed raw → raw ∉ [0, 1, 2, 3, 4]
  side : SideTyped r.side
  price : PriceTyped r.price

instance (type : ClientRequestType) (raws : List UInt8) :
    Decidable (∀ raw, type = .unnamed raw → raw ∉ raws) :=
  match type with
  | .unnamed raw => decidable_of_iff (raw ∉ raws)
      ⟨fun h _ heq => ClientRequestType.unnamed.inj heq ▸ h, fun h => h raw rfl⟩
  | .invalid | .new | .cancel => .isTrue nofun

instance (type : ClientResponseType) (raws : List UInt8) :
    Decidable (∀ raw, type = .unnamed raw → raw ∉ raws) :=
  match type with
  | .unnamed raw => decidable_of_iff (raw ∉ raws)
      ⟨fun h _ heq => ClientResponseType.unnamed.inj heq ▸ h,
        fun h => h raw rfl⟩
  | .invalid | .accepted | .cancelled | .filled | .cancelRejected =>
      .isTrue nofun

instance (r : MatchingEngineClientRequest) : Decidable (RequestTyped r) :=
  decidable_of_iff ((∀ raw, r.type = .unnamed raw → raw ∉ [0, 1, 2])
      ∧ SideTyped r.side ∧ PriceTyped r.price)
    ⟨fun ⟨htype, hside, hprice⟩ => ⟨htype, hside, hprice⟩,
      fun h => ⟨h.type, h.side, h.price⟩⟩

instance (r : MatchingEngineClientResponse) : Decidable (ResponseTyped r) :=
  decidable_of_iff ((∀ raw, r.type = .unnamed raw → raw ∉ [0, 1, 2, 3, 4])
      ∧ SideTyped r.side ∧ PriceTyped r.price)
    ⟨fun ⟨htype, hside, hprice⟩ => ⟨htype, hside, hprice⟩,
      fun h => ⟨h.type, h.side, h.price⟩⟩

/-- A side of the source's type is read back: a byte that is none of the four
enumerators stays what it is. -/
theorem valid_side {s : Side} (h : SideTyped s) : side.Valid s := by
  cases s with
  | unnamed raw =>
      obtain ⟨hlow, hhigh, hraw⟩ := h
      simp only [List.mem_cons, List.not_mem_nil, or_false, not_or] at hraw
      -- one byte holds it, and no enumerator is taken for it
      refine ⟨Codec.valid_int ?_ ?_, ?_⟩
      · show -((256 ^ 1 : Nat) : Int) ≤ 2 * raw
        omega
      · show 2 * raw < ((256 ^ 1 : Nat) : Int)
        omega
      · show sideOfValue raw = .unnamed raw
        unfold sideOfValue
        rw [if_neg hraw.1, if_neg hraw.2.1, if_neg hraw.2.2.1,
          if_neg hraw.2.2.2]
  | invalid => exact ⟨Codec.valid_int (by decide) (by decide), rfl⟩
  | buy => exact ⟨Codec.valid_int (by decide) (by decide), rfl⟩
  | sell => exact ⟨Codec.valid_int (by decide) (by decide), rfl⟩
  | max => exact ⟨Codec.valid_int (by decide) (by decide), rfl⟩

/-- So is a price: eight bytes hold it. -/
theorem valid_price {p : Int} (h : PriceTyped p) : price.Valid p := by
  have hlow : -2 ^ 63 ≤ p := h.1
  have hhigh : p < 2 ^ 63 := h.2
  refine Codec.valid_int ?_ ?_
  · show -((256 ^ 8 : Nat) : Int) ≤ 2 * p
    omega
  · show 2 * p < ((256 ^ 8 : Nat) : Int)
    omega

/-- So is a request type. -/
theorem valid_clientRequestType {t : ClientRequestType}
    (h : ∀ raw, t = .unnamed raw → raw ∉ [0, 1, 2]) :
    clientRequestType.Valid t := by
  refine ⟨Codec.valid_uint8 _, ?_⟩
  cases t with
  | unnamed raw =>
      have hraw := h raw rfl
      simp only [List.mem_cons, List.not_mem_nil, or_false, not_or] at hraw
      show clientRequestTypeOfByte raw = .unnamed raw
      unfold clientRequestTypeOfByte
      split <;> simp_all
  | invalid => rfl
  | new => rfl
  | cancel => rfl

/-- And a response type. -/
theorem valid_clientResponseType {t : ClientResponseType}
    (h : ∀ raw, t = .unnamed raw → raw ∉ [0, 1, 2, 3, 4]) :
    clientResponseType.Valid t := by
  refine ⟨Codec.valid_uint8 _, ?_⟩
  cases t with
  | unnamed raw =>
      have hraw := h raw rfl
      simp only [List.mem_cons, List.not_mem_nil, or_false, not_or] at hraw
      show clientResponseTypeOfByte raw = .unnamed raw
      unfold clientResponseTypeOfByte
      split <;> simp_all
  | invalid => rfl
  | accepted => rfl
  | cancelled => rfl
  | filled => rfl
  | cancelRejected => rfl

/-- A request of the source's types is read back. -/
theorem valid_clientRequest {r : OrderManagementClientRequest}
    (h : RequestTyped r.meClientRequest) : clientRequest.Valid r :=
  ⟨Codec.valid_uint64 _, valid_clientRequestType h.type, Codec.valid_uint32 _,
    Codec.valid_uint32 _, Codec.valid_uint64 _, valid_side h.side,
    valid_price h.price, Codec.valid_uint32 _⟩

/-- A response of the source's types is read back. -/
theorem valid_clientResponse {r : OrderManagementClientResponse}
    (h : ResponseTyped r.meClientResponse) : clientResponse.Valid r :=
  ⟨Codec.valid_uint64 _, valid_clientResponseType h.type,
    Codec.valid_uint32 _, Codec.valid_uint32 _, Codec.valid_uint64 _,
    Codec.valid_uint64 _, valid_side h.side, valid_price h.price,
    Codec.valid_uint32 _, Codec.valid_uint32 _⟩

end Wire

end ElectronicTrading
