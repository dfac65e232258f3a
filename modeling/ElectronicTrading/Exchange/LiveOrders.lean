/-
The live orders of the exchange, as the market updates tell them: what a
receiver of the feed is for.

`LiveOrders` has side, price and quantity of the order of each id of each
ticker, and `playAll` plays updates into it. A CLEAR takes away the orders
of its ticker; a trade and the delimiters of a snapshot say nothing about
orders. The pools, levels and pointer arrays that the components keep
their orders in do not appear here.
-/
import ElectronicTrading.Exchange.Messages

namespace ElectronicTrading

structure LiveOrder where
  side : Side
  price : Price
  quantity : Quantity
deriving DecidableEq, Repr

/-- The order that an ADD tells. -/
def MatchingEngineMarketUpdate.order (u : MatchingEngineMarketUpdate) :
    LiveOrder where
  side := u.side
  price := u.price
  quantity := u.quantity

abbrev LiveOrders := TickerID → OrderID → Option LiveOrder

namespace LiveOrders

def empty : LiveOrders := fun _ _ => none

def set (live : LiveOrders) (tickerId : TickerID) (orderId : OrderID)
    (order : Option LiveOrder) : LiveOrders := fun t o =>
  if t = tickerId ∧ o = orderId then order else live t o

def clear (live : LiveOrders) (tickerId : TickerID) : LiveOrders := fun t o =>
  if t = tickerId then none else live t o

/-- What an update makes of the orders. -/
def play (live : LiveOrders) (u : MatchingEngineMarketUpdate) : LiveOrders :=
  match u.type with
  | .add => live.set u.tickerId u.orderId (some u.order)
  | .modify => live.set u.tickerId u.orderId
      ((live u.tickerId u.orderId).map fun order =>
        { order with price := u.price, quantity := u.quantity })
  | .cancel => live.set u.tickerId u.orderId none
  | .clear => live.clear u.tickerId
  | .invalid | .trade | .snapshotStart | .snapshotEnd => live

def playAll (live : LiveOrders) (us : List MatchingEngineMarketUpdate) :
    LiveOrders := us.foldl play live

/-- The orders that updates from the first on leave. -/
def replay (us : List MatchingEngineMarketUpdate) : LiveOrders :=
  empty.playAll us

variable {live : LiveOrders} {u : MatchingEngineMarketUpdate}
  {us us' : List MatchingEngineMarketUpdate} {tickerId : TickerID}

@[simp] theorem playAll_nil : live.playAll [] = live := rfl

@[simp] theorem playAll_cons :
    live.playAll (u :: us) = (live.play u).playAll us := rfl

theorem playAll_append :
    live.playAll (us ++ us') = (live.playAll us).playAll us' :=
  List.foldl_append

theorem replay_append : replay (us ++ us') = (replay us).playAll us' :=
  playAll_append

theorem replay_snoc : replay (us ++ [u]) = (replay us).play u :=
  replay_append

/-- An update is about the orders of its ticker. -/
theorem play_other (h : tickerId ≠ u.tickerId) :
    live.play u tickerId = live tickerId := by
  funext o
  have hset : ∀ order, live.set u.tickerId u.orderId order tickerId o
      = live tickerId o := fun _ => if_neg fun hboth => h hboth.1
  unfold play
  cases u.type with
  | add => exact hset _
  | modify => exact hset _
  | cancel => exact hset _
  | clear => exact if_neg h
  | invalid => rfl
  | trade => rfl
  | snapshotStart => rfl
  | snapshotEnd => rfl

/-- The updates of other tickers do not matter. -/
theorem playAll_other (h : ∀ u ∈ us, tickerId ≠ u.tickerId) :
    live.playAll us tickerId = live tickerId := by
  induction us generalizing live with
  | nil => rfl
  | cons u us ih =>
      rw [playAll_cons, ih fun v hv => h v (List.mem_cons_of_mem u hv),
        play_other (h u List.mem_cons_self)]

/-- ADDs of orders of one ticker, each under its own id. -/
theorem playAll_adds {f : OrderID → Option MatchingEngineMarketUpdate}
    (hf : ∀ o u, f o = some u →
      u.type = .add ∧ u.tickerId = tickerId ∧ u.orderId = o)
    (ids : List OrderID) (live : LiveOrders) (t : TickerID) (o : OrderID) :
    live.playAll (ids.filterMap f) t o
      = if t = tickerId ∧ o ∈ ids ∧ f o ≠ none then
          (f o).map MatchingEngineMarketUpdate.order
        else live t o := by
  induction ids generalizing live with
  | nil =>
      rw [if_neg fun h => List.not_mem_nil h.2.1]
      rfl
  | cons k ids ih =>
      cases hk : f k with
      | none =>
          rw [List.filterMap_cons_none hk, ih]
          refine if_congr ⟨fun h => ⟨h.1, List.mem_cons_of_mem k h.2.1, h.2.2⟩,
            fun h => ⟨h.1, ?_, h.2.2⟩⟩ rfl rfl
          refine (List.mem_cons.1 h.2.1).resolve_left fun heq => ?_
          rw [heq] at h
          exact h.2.2 hk
      | some u =>
          obtain ⟨htype, hticker, hid⟩ := hf k u hk
          have hplay : live.play u = live.set tickerId k (some u.order) := by
            unfold play
            rw [htype, hticker, hid]
          rw [List.filterMap_cons_some hk, playAll_cons, ih, hplay]
          by_cases hself : t = tickerId ∧ o = k
          · obtain ⟨ht, ho⟩ := hself
            have hset : live.set tickerId k (some u.order) t o
                = some u.order := if_pos ⟨ht, ho⟩
            have hheld : f k ≠ none := by
              rw [hk]
              exact Option.some_ne_none u
            rw [hset, ho]
            refine Eq.trans ?_ (if_pos ⟨ht, List.mem_cons_self, hheld⟩).symm
            rw [hk]
            exact ite_self _
          · have hset : live.set tickerId k (some u.order) t o = live t o :=
              if_neg hself
            rw [hset]
            refine if_congr ⟨fun h => ⟨h.1, List.mem_cons_of_mem k h.2.1,
              h.2.2⟩, fun h => ⟨h.1, ?_, h.2.2⟩⟩ rfl rfl
            exact (List.mem_cons.1 h.2.1).resolve_left fun heq =>
              hself ⟨h.1, heq⟩

/-- Parts that each make the orders of one ticker what they are in
`final`. -/
theorem playAll_flatMap {g : TickerID → List MatchingEngineMarketUpdate}
    {final : LiveOrders} {ts : List TickerID}
    (hg : ∀ t ∈ ts, ∀ (live : LiveOrders) (t' : TickerID),
      live.playAll (g t) t' = if t' = t then final t' else live t')
    (live : LiveOrders) (t' : TickerID) :
    live.playAll (ts.flatMap g) t'
      = if t' ∈ ts then final t' else live t' := by
  induction ts generalizing live with
  | nil =>
      rw [if_neg List.not_mem_nil]
      rfl
  | cons t ts ih =>
      rw [List.flatMap_cons, playAll_append,
        ih fun s hs => hg s (List.mem_cons_of_mem t hs),
        hg t List.mem_cons_self]
      by_cases hin : t' ∈ ts
      · rw [if_pos hin, if_pos (List.mem_cons_of_mem t hin)]
      · rw [if_neg hin]
        exact if_congr ⟨fun heq => heq ▸ List.mem_cons_self,
          fun h => (List.mem_cons.1 h).resolve_right hin⟩ rfl rfl

end LiveOrders

end ElectronicTrading
