/-
Every fill is one of an order that was submitted, within its limit.

A resting order stands for one of the run's NEW requests, with its client,
side and price (`Traced`), and so does the one that comes in. A trade is
at the price of the resting order, which the incoming one's limit admits
(`crosses`), and it is of a positive quantity. So whoever is told of a fill
once asked for it (`fills_of_cleanRun`), however long ago.
-/
import ElectronicTrading.Exchange.Proofs.Conservation
import ElectronicTrading.Exchange.Proofs.Tape

namespace ElectronicTrading

open PriceTime Runs

namespace Reference

-- ====================================================================== orders

/-- The NEW request that was given the market order id `m`. -/
def IsOrder (rs : List MatchingEngineClientRequest) (m : OrderID)
    (r : MatchingEngineClientRequest) : Prop :=
  ∃ k, (newOrders rs)[k]? = some r ∧ m = orderIdOf k

/-- The response is a fill that the order allows. -/
structure Fills (r : MatchingEngineClientRequest)
    (m : MatchingEngineClientResponse) : Prop where
  client : m.clientId = r.clientId
  order : m.clientOrderId = r.orderId
  side : m.side = r.side
  buys : r.side = .buy → m.price ≤ r.price
  sells : r.side = .sell → r.price ≤ m.price
  executed : m.execQuantity ≠ 0

/-- A resting order is what is left of a NEW request. -/
structure StandsFor (x : Resting OrderIds) (r : MatchingEngineClientRequest) :
    Prop where
  client : x.key.clientId = r.clientId
  order : x.key.clientOrderId = r.orderId
  side : x.side = r.side
  price : x.price = r.price

/-- So is every resting order. -/
def Traced (rs : List MatchingEngineClientRequest) (book : Book) : Prop :=
  ∀ b, ∀ x ∈ book b, ∃ r, IsOrder rs x.key.marketOrderId r ∧ StandsFor x r

variable {rs : List MatchingEngineClientRequest}
  {r q : MatchingEngineClientRequest} {x x' : Resting OrderIds} {m : OrderID}

theorem length_newOrders (rs : List MatchingEngineClientRequest) :
    (newOrders rs).length = (submitted rs).length := by
  unfold newOrders submitted
  rw [List.length_map]

theorem IsOrder.snoc (h : IsOrder rs m q) (r : MatchingEngineClientRequest) :
    IsOrder (rs ++ [r]) m q := by
  obtain ⟨k, hk, hm⟩ := h
  refine ⟨k, ?_, hm⟩
  rw [newOrders_snoc, List.getElem?_append_left]
  · exact hk
  · exact (List.getElem?_eq_some_iff.1 hk).1

theorem isOrder_last (rs : List MatchingEngineClientRequest)
    (hr : r.type = .new) :
    IsOrder (rs ++ [r]) (orderIdOf (submitted rs).length) r := by
  refine ⟨(newOrders rs).length, ?_, by rw [length_newOrders]⟩
  rw [newOrders_snoc, if_pos hr, List.getElem?_concat_length]

theorem StandsFor.congr (h : StandsFor x r) (hcore : core x' = core x) :
    StandsFor x' r := by
  obtain ⟨hkey, hside, hprice, -⟩ := core_eq hcore
  refine ⟨?_, ?_, ?_, ?_⟩
  · rw [hkey]
    exact h.client
  · rw [hkey]
    exact h.order
  · rw [hside]
    exact h.side
  · rw [hprice]
    exact h.price

-- =================================================================== one sweep

/-- Every trade is of some quantity. -/
theorem sweep_trade_ne_zero {b : Bool} {limit : Price}
    {l : List (Resting OrderIds)} (hpos : ∀ x ∈ l, x.quantity ≠ 0) :
    ∀ leaves, ∀ t ∈ (sweep b limit leaves l).trades, t.quantity ≠ 0 := by
  induction l with
  | nil =>
      intro leaves t ht
      cases ht
  | cons r rest ih =>
      intro leaves t ht
      have hr := hpos r List.mem_cons_self
      rw [sweep] at ht
      by_cases hdone : leaves = 0 ∨ crosses b limit r = false
      · rw [if_pos hdone] at ht
        cases ht
      · rw [if_neg hdone] at ht
        have hfill : min r.quantity leaves ≠ 0 := by
          show (if r.quantity ≤ leaves then r.quantity else leaves) ≠ 0
          split
          · exact hr
          · exact fun hzero => hdone (Or.inl hzero)
        by_cases hzero : r.quantity - min r.quantity leaves = 0
        · simp only [hzero, if_true] at ht
          rcases List.mem_cons.1 ht with rfl | ht
          · exact hfill
          · exact ih (fun x hx => hpos x (List.mem_cons_of_mem r hx)) _ t ht
        · simp only [hzero, if_false] at ht
          rw [List.mem_singleton.1 ht]
          exact hfill

/-- The responses of a sweep: the two of one of its trades. -/
theorem response_of_sweepMessages {i : Incoming}
    {m : MatchingEngineClientResponse} {ts : List (Trade OrderIds)} :
    ∀ {leaves}, Sent.response m ∈ i.sweepMessages leaves ts →
      ∃ t ∈ ts, m = i.restingFilled t ∨ ∃ left, m = i.filled t left := by
  induction ts with
  | nil =>
      intro leaves hm
      cases hm
  | cons t ts ih =>
      intro leaves hm
      rw [Incoming.sweepMessages, List.mem_append] at hm
      rcases hm with hm | hm
      · refine ⟨t, List.mem_cons_self, ?_⟩
        unfold Incoming.fillMessages at hm
        rw [List.mem_cons, List.mem_cons, List.mem_singleton] at hm
        rcases hm with hm | hm | hm
        · cases hm
          exact Or.inr ⟨_, rfl⟩
        · cases hm
          exact Or.inl rfl
        · cases hm
      · obtain ⟨t', ht', hm⟩ := ih hm
        exact ⟨t', List.mem_cons_of_mem t ht', hm⟩

/-- What a NEW order's messages tell of fills is what both orders allow. -/
theorem fills_of_messages {i : Incoming} {book : Book} (hok : Ok book)
    (htraced : Traced rs book) (hnew : r.type = .new)
    (hid : i.ids.marketOrderId = orderIdOf (submitted rs).length)
    (hclient : i.ids.clientId = r.clientId)
    (horder : i.ids.clientOrderId = r.orderId)
    (hside : sideOf i.isBuy = r.side) (hprice : i.price = r.price)
    {m : MatchingEngineClientResponse}
    (hm : Sent.response m ∈ i.messages book) (hfilled : m.type = .filled) :
    ∃ q, IsOrder (rs ++ [r]) m.marketOrderId q ∧ Fills q m := by
  obtain ⟨added, heq, hadded⟩ := messages_eq i book
  obtain ⟨untouched, hsplit, hcrosses, -⟩ :=
    sweep_split i.isBuy i.price (book !i.isBuy) i.quantity
  rw [heq, List.mem_append, List.mem_append, List.mem_singleton] at hm
  rcases hm with (hm | hm) | hm
  · cases hm
    cases hfilled
  · obtain ⟨t, ht, hm⟩ := response_of_sweepMessages hm
    have hsome := sweep_trade_ne_zero (hok.positive !i.isBuy) _ t ht
    have hresting : t.resting ∈ book !i.isBuy := by
      rw [hsplit]
      exact List.mem_append_left _ (List.mem_map_of_mem ht)
    have hcross := hcrosses t ht
    unfold crosses at hcross
    rcases hm with rfl | ⟨left, rfl⟩
    · obtain ⟨q, hq, hstands⟩ := htraced _ _ hresting
      refine ⟨q, hq.snoc r, hstands.client, hstands.order, hstands.side,
        fun _ => ?_, fun _ => ?_, hsome⟩
      · exact hstands.price.le
      · exact hstands.price.ge
    · refine ⟨r, ?_, hclient, horder, hside, fun hbuy => ?_, fun hsell => ?_,
        hsome⟩
      · show IsOrder _ i.ids.marketOrderId r
        rw [hid]
        exact isOrder_last rs hnew
      · rw [hbuy] at hside
        rw [sideOf_injective (c := true) hside] at hcross
        rw [← hprice]
        exact of_decide_eq_true hcross
      · rw [hsell] at hside
        rw [sideOf_injective (c := false) hside] at hcross
        rw [← hprice]
        exact of_decide_eq_true hcross
  · obtain ⟨_, hm⟩ := hadded _ hm
    cases hm

/-- The orders that rest after a NEW are traced. -/
theorem Traced.new {i : Incoming} {book : Book} (h : Traced rs book)
    (hnew : r.type = .new)
    (hid : i.ids.marketOrderId = orderIdOf (submitted rs).length)
    (hclient : i.ids.clientId = r.clientId)
    (horder : i.ids.clientOrderId = r.orderId)
    (hside : sideOf i.isBuy = r.side) (hprice : i.price = r.price) :
    Traced (rs ++ [r]) (i.apply book) := by
  intro b x hx
  rcases Incoming.mem_apply hx with ⟨-, -, rfl⟩ | hx
  · refine ⟨r, ?_, hclient, horder, hside, hprice⟩
    show IsOrder _ i.ids.marketOrderId r
    rw [hid]
    exact isOrder_last rs hnew
  · obtain ⟨w, hw, hcore⟩ := Incoming.exists_core hx
    obtain ⟨q, hq, hstands⟩ := h b w hw
    rw [(core_eq hcore).1] at hq
    exact ⟨q, hq.snoc r, hstands.congr hcore.symm⟩

end Reference

namespace MatchingEngineOrderBook

open Reference

-- ======================================================================== runs

/-- Every fill told in a run, and every order that rests after it, is of one
of its NEW requests. -/
theorem traced_of_cleanRun {rs : List MatchingEngineClientRequest}
    {s : MatchingEngineOrderBook} (h : Run CleanStep new rs s) :
    Traced rs s.book ∧ ∀ m, Sent.response m ∈ s.sent → m.type = .filled →
      ∃ q, IsOrder rs m.marketOrderId q ∧ Fills q m := by
  refine h.induct (I := fun rs s => Traced rs s.book ∧ ∀ m,
    Sent.response m ∈ s.sent → m.type = .filled →
      ∃ q, IsOrder rs m.marketOrderId q ∧ Fills q m) ?_ ?_
  · refine ⟨fun b x hx => ?_, fun m hm => by cases hm⟩
    rw [book_new] at hx
    cases hx
  · intro rs s r s' hrun ⟨htraced, hfills⟩ hstep
    obtain ⟨lay, hgood⟩ := good_of_cleanRun hrun
    have hid := (ledger_of_cleanRun hrun).1
    have hkept : ∀ m, Sent.response m ∈ s.sent → m.type = .filled →
        ∃ q, IsOrder (rs ++ [r]) m.marketOrderId q ∧ Fills q m := by
      intro m hm hfilled
      obtain ⟨q, hq, hfill⟩ := hfills m hm hfilled
      exact ⟨q, hq.snoc r, hfill⟩
    have hless : ∀ {book : Book}, (∀ b, ∀ x ∈ book b, x ∈ s.book b) →
        Traced (rs ++ [r]) book := by
      intro book hsub b x hx
      obtain ⟨q, hq, hstands⟩ := htraced b x (hsub b x hx)
      exact ⟨q, hq.snoc r, hstands⟩
    rcases step_cases hgood.stored hstep.valid hstep.processed
        (hstep.free hgood.stored) with
      ⟨hnew, lay', hafter⟩ | ⟨-, -, rfl⟩ | ⟨-, -, lay', c, x, hafter⟩
    · have hside : sideOf (s.incoming r).isBuy = r.side := by
        rcases hstep.valid.side hnew with hr | hr
        · unfold incoming
          rw [hr]
          rfl
        · unfold incoming
          rw [hr]
          rfl
      refine ⟨?_, fun m hm hfilled => ?_⟩
      · rw [hafter.book]
        exact htraced.new hnew hid rfl rfl hside rfl
      · rw [hafter.sent, List.mem_append] at hm
        rcases hm with hm | hm
        · exact hkept m hm hfilled
        · exact fills_of_messages hgood.ok htraced hnew hid rfl rfl hside rfl
            hm hfilled
    · refine ⟨hless fun _ _ hx => hx, fun m hm hfilled => ?_⟩
      rcases List.mem_append.1 hm with hm | hm
      · exact hkept m hm hfilled
      · cases List.mem_singleton.1 hm
        cases hfilled
    · refine ⟨hless fun b y hy => ?_, fun m hm hfilled => ?_⟩
      · by_cases hb : b = c
        · subst hb
          obtain ⟨l, l', hbefore, hbook⟩ := hafter.book
          rw [hbook] at hy
          rw [hbefore]
          exact ((List.Sublist.refl l).append
            (List.sublist_cons_self x l')).subset hy
        · rw [hafter.other b hb] at hy
          exact hy
      · rw [hafter.sent, List.mem_append, List.mem_cons,
          List.mem_singleton] at hm
        rcases hm with hm | hm | hm
        · exact hkept m hm hfilled
        · cases hm
        · cases hm
          cases hfilled

/-- A client that is told of a fill submitted its order, on that side and
with a limit that admits the price. -/
theorem fills_of_cleanRun {rs : List MatchingEngineClientRequest}
    {s : MatchingEngineOrderBook} (h : Run CleanStep new rs s)
    {m : MatchingEngineClientResponse} (hm : Sent.response m ∈ s.sent)
    (hfilled : m.type = .filled) :
    ∃ q, IsOrder rs m.marketOrderId q ∧ Fills q m :=
  (traced_of_cleanRun h).2 m hm hfilled

theorem fills_of_cleanRun_oneTrade : ∃ s m, Run CleanStep new oneTrade s
    ∧ Sent.response m ∈ s.sent ∧ m.type = .filled
    ∧ ∃ q, IsOrder oneTrade m.marketOrderId q ∧ Fills q m := by
  obtain ⟨s, hrun, hexecutions, -⟩ := run_oneTrade
  have hfills : fills s.sent ≠ [] := by
    intro hnone
    rw [hnone] at hexecutions
    exact hexecutions rfl
  obtain ⟨m, hm⟩ := List.exists_mem_of_ne_nil _ hfills
  obtain ⟨x, hx, hfill⟩ := List.mem_filterMap.1 hm
  cases x with
  | update u => cases hfill
  | response r =>
      obtain ⟨hfilled, heq⟩ := Option.ite_none_right_eq_some.1 hfill
      cases heq
      exact ⟨s, m, hrun, hx, hfilled, fills_of_cleanRun hrun hx hfilled⟩

end MatchingEngineOrderBook

end ElectronicTrading
