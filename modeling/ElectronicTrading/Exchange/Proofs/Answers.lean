/-
What a request does to the orders of one client, and what the client is
told of it.

An order of the opposite list trades at most once in a sweep; a list that
holds one order of the client (`ordersOf`) holds it after the sweep too,
but for what the trade took (`sweep_ordersOf`). The answers are taken as
they are meant to arrive: under the client's id, also an ACCEPTED, which
`add` sends with the client's id and the ticker's in each other's place
(`readdressed`).
-/
import ElectronicTrading.Exchange.Proofs.Steps

namespace ElectronicTrading

open PriceTime

namespace Reference

-- ============================================================ one client's orders

/-- A client's orders in a list. -/
def ordersOf (clientId : ClientID) (l : List (Resting OrderIds)) :
    List (Resting OrderIds) :=
  l.filter (·.key.clientId = clientId)

/-- The trades of a client's resting orders. -/
def tradesOf (clientId : ClientID) (ts : List (Trade OrderIds)) :
    List (Trade OrderIds) :=
  ts.filter (·.resting.key.clientId = clientId)

/-- What a trade leaves of the resting order. -/
def afterTrade (t : Trade OrderIds) : List (Resting OrderIds) :=
  if t.resting.quantity - t.quantity = 0 then []
  else [{ t.resting with quantity := t.resting.quantity - t.quantity }]

variable {c : ClientID} {r : Resting OrderIds} {l m : List (Resting OrderIds)}

theorem ordersOf_cons_own (h : r.key.clientId = c) :
    ordersOf c (r :: l) = r :: ordersOf c l :=
  List.filter_cons_of_pos (decide_eq_true h)

theorem ordersOf_cons_other (h : r.key.clientId ≠ c) :
    ordersOf c (r :: l) = ordersOf c l :=
  List.filter_cons_of_neg (by simpa using h)

theorem ordersOf_append : ordersOf c (l ++ m) = ordersOf c l ++ ordersOf c m :=
  List.filter_append ..

theorem tradesOf_cons_own {t : Trade OrderIds} {ts : List (Trade OrderIds)}
    (h : t.resting.key.clientId = c) :
    tradesOf c (t :: ts) = t :: tradesOf c ts :=
  List.filter_cons_of_pos (decide_eq_true h)

theorem tradesOf_cons_other {t : Trade OrderIds} {ts : List (Trade OrderIds)}
    (h : t.resting.key.clientId ≠ c) :
    tradesOf c (t :: ts) = tradesOf c ts :=
  List.filter_cons_of_neg (by simpa using h)

/-- The client's only order in a list trades once in a sweep, or not at
all. -/
theorem sweep_ordersOf {isBuy : Bool} {limit : Price}
    (l : List (Resting OrderIds)) : ∀ leaves : Quantity,
    (ordersOf c l).length ≤ 1 →
    (tradesOf c (sweep isBuy limit leaves l).trades = []
        ∧ ordersOf c (sweep isBuy limit leaves l).rest = ordersOf c l)
      ∨ ∃ t, ordersOf c l = [t.resting]
        ∧ tradesOf c (sweep isBuy limit leaves l).trades = [t]
        ∧ ordersOf c (sweep isBuy limit leaves l).rest = afterTrade t := by
  induction l with
  | nil => exact fun _ _ => Or.inl ⟨rfl, rfl⟩
  | cons r rest ih =>
      intro leaves hone
      rw [sweep]
      by_cases hdone : leaves = 0 ∨ crosses isBuy limit r = false
      · rw [if_pos hdone]
        exact Or.inl ⟨rfl, rfl⟩
      · rw [if_neg hdone]
        by_cases hown : r.key.clientId = c
        · -- no other order of the client's is in the list
          have hnone : ordersOf c rest = [] := by
            rw [ordersOf_cons_own hown, List.length_cons] at hone
            exact List.eq_nil_of_length_eq_zero (by omega)
          refine Or.inr ⟨⟨r, min r.quantity leaves⟩, ?_, ?_⟩
          · rw [ordersOf_cons_own hown, hnone]
          · by_cases hzero : r.quantity - min r.quantity leaves = 0
            · rcases ih (leaves - min r.quantity leaves) (by rw [hnone]; decide)
                with ⟨htrades, hrest⟩ | ⟨t, ht, -⟩
              · simp only [hzero, if_true]
                refine ⟨?_, ?_⟩
                · rw [tradesOf_cons_own hown, htrades]
                · rw [hrest, hnone, afterTrade, if_pos hzero]
              · rw [hnone] at ht
                cases ht
            · simp only [hzero, if_false]
              refine ⟨?_, ?_⟩
              · rw [tradesOf_cons_own hown]
                rfl
              · refine (ordersOf_cons_own (r := { r with
                  quantity := r.quantity - min r.quantity leaves }) hown).trans
                  ?_
                rw [hnone, afterTrade, if_neg hzero]
        · rw [ordersOf_cons_other hown] at hone ⊢
          by_cases hzero : r.quantity - min r.quantity leaves = 0
          · simp only [hzero, if_true]
            rw [tradesOf_cons_other hown]
            exact ih (leaves - min r.quantity leaves) hone
          · simp only [hzero, if_false]
            refine Or.inl ⟨tradesOf_cons_other hown, ?_⟩
            exact ordersOf_cons_other hown

theorem Incoming.swept_ordersOf (i : Incoming) {book : Book}
    (hone : (ordersOf c (book !i.isBuy)).length ≤ 1) :
    (tradesOf c (i.swept book).trades = []
        ∧ ordersOf c (i.swept book).rest = ordersOf c (book !i.isBuy))
      ∨ ∃ t, ordersOf c (book !i.isBuy) = [t.resting]
        ∧ tradesOf c (i.swept book).trades = [t]
        ∧ ordersOf c (i.swept book).rest = afterTrade t :=
  sweep_ordersOf (book !i.isBuy) i.quantity hone

/-- An order of the client's, placed where it has none. -/
theorem ordersOf_place_own {b : Bool} (h : Sorted b l)
    (hown : r.key.clientId = c) (hnone : ordersOf c l = []) :
    ordersOf c (place b r l) = [r] := by
  obtain ⟨m, n, hsplit, hplace, -, -⟩ := exists_place h r
  rw [hsplit, ordersOf_append] at hnone
  obtain ⟨hm, hn⟩ := List.append_eq_nil_iff.1 hnone
  rw [hplace, ordersOf_append, ordersOf_cons_own hown, hm, hn]
  rfl

/-- Another client's order, placed in a list. -/
theorem ordersOf_place_other {b : Bool} (h : Sorted b l)
    (hother : r.key.clientId ≠ c) :
    ordersOf c (place b r l) = ordersOf c l := by
  obtain ⟨m, n, hsplit, hplace, -, -⟩ := exists_place h r
  rw [hplace, ordersOf_append, ordersOf_cons_other hother, ← ordersOf_append,
    ← hsplit]

-- ================================================================== answers

/-- A response as it is meant to arrive. -/
def readdressed (m : MatchingEngineClientResponse) :
    MatchingEngineClientResponse :=
  if m.type = .accepted then
    { m with clientId := m.tickerId, tickerId := m.clientId }
  else m

/-- The responses among what was sent. -/
def responsesOf (sent : List Sent) : List MatchingEngineClientResponse :=
  sent.filterMap fun
    | .response m => some m
    | .update _ => none

/-- The responses that a client gets. -/
def answersTo (clientId : ClientID) (sent : List Sent) :
    List MatchingEngineClientResponse :=
  ((responsesOf sent).map readdressed).filter (·.clientId = clientId)

/-- Those about the orders of a ticker and side. -/
def answersFor (tickerId : TickerID) (side : Side)
    (ms : List MatchingEngineClientResponse) :
    List MatchingEngineClientResponse :=
  ms.filter fun m => m.tickerId = tickerId ∧ m.side = side

theorem answersTo_append (sent sent' : List Sent) :
    answersTo c (sent ++ sent') = answersTo c sent ++ answersTo c sent' := by
  unfold answersTo responsesOf
  rw [List.filterMap_append, List.map_append, List.filter_append]

theorem mem_answersTo {sent : List Sent} {m : MatchingEngineClientResponse} :
    m ∈ answersTo c sent
      ↔ ∃ m₀, .response m₀ ∈ sent ∧ readdressed m₀ = m ∧ m.clientId = c := by
  unfold answersTo responsesOf
  rw [List.mem_filter, List.mem_map]
  constructor
  · intro h
    obtain ⟨⟨m₀, hm₀, hm⟩, hclient⟩ := h
    obtain ⟨s, hs, heq⟩ := List.mem_filterMap.1 hm₀
    cases s with
    | response m₁ =>
        cases heq
        exact ⟨m₀, hs, hm, of_decide_eq_true hclient⟩
    | update u => cases heq
  · intro h
    obtain ⟨m₀, hm₀, hm, hclient⟩ := h
    exact ⟨⟨m₀, List.mem_filterMap.2 ⟨.response m₀, hm₀, rfl⟩, hm⟩,
      decide_eq_true hclient⟩

theorem answersFor_append (tickerId : TickerID) (side : Side)
    (ms ms' : List MatchingEngineClientResponse) :
    answersFor tickerId side (ms ++ ms')
      = answersFor tickerId side ms ++ answersFor tickerId side ms' :=
  List.filter_append ..

theorem answersFor_cons_own {tickerId : TickerID} {side : Side}
    {m : MatchingEngineClientResponse} {ms : List MatchingEngineClientResponse}
    (h : m.tickerId = tickerId ∧ m.side = side) :
    answersFor tickerId side (m :: ms) = m :: answersFor tickerId side ms :=
  List.filter_cons_of_pos (decide_eq_true h)

theorem answersFor_cons_other {tickerId : TickerID} {side : Side}
    {m : MatchingEngineClientResponse} {ms : List MatchingEngineClientResponse}
    (h : ¬ (m.tickerId = tickerId ∧ m.side = side)) :
    answersFor tickerId side (m :: ms) = answersFor tickerId side ms :=
  List.filter_cons_of_neg fun heq => h (of_decide_eq_true heq)

/-- The aggressor's fill responses; `leaves` is what it has before them. -/
def Incoming.ownFills (i : Incoming) :
    Quantity → List (Trade OrderIds) → List MatchingEngineClientResponse
  | _, [] => []
  | leaves, t :: ts =>
      i.filled t (leaves - t.quantity) :: i.ownFills (leaves - t.quantity) ts

theorem sideOf_ne_not (b : Bool) : sideOf b ≠ sideOf !b := by
  cases b <;> decide

/-- Of a sweep, the aggressor's side hears the aggressor's fills. -/
theorem answersFor_sweep_own (i : Incoming) (ts : List (Trade OrderIds))
    (hside : ∀ t ∈ ts, t.resting.side = sideOf !i.isBuy) :
    ∀ leaves, answersFor i.ids.tickerId (sideOf i.isBuy)
        (answersTo c (i.sweepMessages leaves ts))
      = if i.ids.clientId = c then i.ownFills leaves ts else [] := by
  induction ts with
  | nil =>
      intro leaves
      split <;> rfl
  | cons t ts ih =>
      intro leaves
      have hother : t.resting.side ≠ sideOf i.isBuy := by
        rw [hside t List.mem_cons_self]
        exact (sideOf_ne_not i.isBuy).symm
      rw [Incoming.sweepMessages, answersTo_append, answersFor_append,
        ih fun t' ht' => hside t' (List.mem_cons_of_mem t ht')]
      by_cases hown : i.ids.clientId = c
      · by_cases hrest : t.resting.key.clientId = c
        · simp [Incoming.fillMessages, answersTo, responsesOf, answersFor, readdressed,
            Incoming.filled, Incoming.restingFilled, Incoming.ownFills, hown,
            hrest, hother]
        · simp [Incoming.fillMessages, answersTo, responsesOf, answersFor, readdressed,
            Incoming.filled, Incoming.restingFilled, Incoming.ownFills, hown,
            hrest]
      · by_cases hrest : t.resting.key.clientId = c
        · simp [Incoming.fillMessages, answersTo, responsesOf, answersFor, readdressed,
            Incoming.filled, Incoming.restingFilled, hown, hrest, hother]
        · simp [Incoming.fillMessages, answersTo, responsesOf, answersFor, readdressed,
            Incoming.filled, Incoming.restingFilled, hown, hrest]

/-- The other side hears the fills of its resting orders. -/
theorem answersFor_sweep_opposite (i : Incoming) (ts : List (Trade OrderIds))
    (hside : ∀ t ∈ ts, t.resting.side = sideOf !i.isBuy) :
    ∀ leaves, answersFor i.ids.tickerId (sideOf !i.isBuy)
        (answersTo c (i.sweepMessages leaves ts))
      = (tradesOf c ts).map i.restingFilled := by
  induction ts with
  | nil => exact fun _ => rfl
  | cons t ts ih =>
      intro leaves
      have hown := hside t List.mem_cons_self
      have hother := sideOf_ne_not i.isBuy
      rw [Incoming.sweepMessages, answersTo_append, answersFor_append,
        ih fun t' ht' => hside t' (List.mem_cons_of_mem t ht')]
      by_cases hrest : t.resting.key.clientId = c
      · rw [tradesOf_cons_own hrest, List.map_cons]
        by_cases hclient : i.ids.clientId = c
        · simp [Incoming.fillMessages, answersTo, responsesOf, answersFor, readdressed,
            Incoming.filled, Incoming.restingFilled, hclient, hrest, hown,
            hother]
        · simp [Incoming.fillMessages, answersTo, responsesOf, answersFor, readdressed,
            Incoming.filled, Incoming.restingFilled, hclient, hrest, hown]
      · rw [tradesOf_cons_other hrest]
        by_cases hclient : i.ids.clientId = c
        · simp [Incoming.fillMessages, answersTo, responsesOf, answersFor, readdressed,
            Incoming.filled, Incoming.restingFilled, hclient, hrest, hother]
        · simp [Incoming.fillMessages, answersTo, responsesOf, answersFor, readdressed,
            Incoming.filled, Incoming.restingFilled, hclient, hrest]

/-- Fills of an order of quantity `q`, each but the last with something
left. -/
inductive FillsTo : Quantity → List MatchingEngineClientResponse → Quantity →
    Prop
  | nil (q : Quantity) : FillsTo q [] q
  | cons {q left : Quantity} {m : MatchingEngineClientResponse}
      {ms : List MatchingEngineClientResponse} (hq : q ≠ 0)
      (htype : m.type = .filled) (hms : FillsTo m.leavesQuantity ms left) :
      FillsTo q (m :: ms) left

theorem fillsTo_sweep (i : Incoming) (l : List (Resting OrderIds)) :
    ∀ leaves, FillsTo leaves
      (i.ownFills leaves (sweep i.isBuy i.price leaves l).trades)
      (sweep i.isBuy i.price leaves l).left := by
  induction l with
  | nil => exact fun leaves => .nil leaves
  | cons r rest ih =>
      intro leaves
      rw [sweep]
      by_cases hdone : leaves = 0 ∨ crosses i.isBuy i.price r = false
      · rw [if_pos hdone]
        exact .nil leaves
      · rw [if_neg hdone]
        have hleaves : leaves ≠ 0 := fun h => hdone (Or.inl h)
        by_cases hzero : r.quantity - min r.quantity leaves = 0
        · simp only [hzero, if_true]
          exact .cons hleaves rfl (ih (leaves - min r.quantity leaves))
        · simp only [hzero, if_false]
          exact .cons hleaves rfl (.nil _)

/-- What the request `r` does to a client's order of a side, and what the
client is told of it. -/
inductive Told (c : ClientID) (b : Bool) (r : MatchingEngineClientRequest) :
    List (Resting OrderIds) → List MatchingEngineClientResponse →
    List (Resting OrderIds) → Prop
  | unchanged (l : List (Resting OrderIds))
      (hnew : r.clientId = c → r.type = .new → r.side ≠ sideOf b)
      (hcancel : r.clientId = c → r.type = .cancel →
        ∀ x ∈ l, x.key.clientOrderId ≠ r.orderId) : Told c b r l [] l
  | filled (x : Resting OrderIds) (m : MatchingEngineClientResponse)
      (htype : m.type = .filled) (hnew : r.type = .new)
      (hother : r.clientId = c → r.side ≠ sideOf b) :
      Told c b r [x] [m] (if m.leavesQuantity = 0 then []
        else [{ x with quantity := m.leavesQuantity }])
  | placed (x : Resting OrderIds) (m : MatchingEngineClientResponse)
      (ms : List MatchingEngineClientResponse) (htype : m.type = .accepted)
      (hnew : r.type = .new) (hclient : r.clientId = c)
      (hside : r.side = sideOf b)
      (hid : x.key.clientOrderId = r.orderId)
      (hprice : x.price = r.price)
      (hfills : FillsTo r.quantity ms x.quantity) :
      Told c b r [] (m :: ms) (if x.quantity = 0 then [] else [x])
  | cancelled (x : Resting OrderIds) (m : MatchingEngineClientResponse)
      (htype : m.type = .cancelled) (hcancel : r.type = .cancel)
      (hclient : r.clientId = c) (hid : x.key.clientOrderId = r.orderId) :
      Told c b r [x] [m] []

/-- The sides a client is answered on. -/
def Sided (m : MatchingEngineClientResponse) : Prop :=
  m.side = .buy ∨ m.side = .sell
    ∨ (m.side = .invalid ∧ m.type = .cancelRejected)

theorem sided_sideOf {m : MatchingEngineClientResponse} {b : Bool}
    (h : m.side = sideOf b) : Sided m := by
  cases b
  · exact Or.inr (Or.inl h)
  · exact Or.inl h

/-- The responses of a sweep. -/
theorem response_mem_sweep {i : Incoming} {ts : List (Trade OrderIds)}
    {m : MatchingEngineClientResponse} : ∀ {leaves : Quantity},
    .response m ∈ i.sweepMessages leaves ts →
    ∃ t ∈ ts, (∃ q, m = i.filled t q) ∨ m = i.restingFilled t := by
  induction ts with
  | nil =>
      intro leaves hm
      cases hm
  | cons t ts ih =>
      intro leaves hm
      rw [Incoming.sweepMessages] at hm
      rcases List.mem_append.1 hm with hfill | hrest
      · refine ⟨t, List.mem_cons_self, ?_⟩
        simp only [Incoming.fillMessages, List.mem_cons, List.not_mem_nil,
          Sent.response.injEq, reduceCtorEq, or_false] at hfill
        exact hfill.imp (fun h => ⟨_, h⟩) id
      · obtain ⟨t', ht', hor⟩ := ih hrest
        exact ⟨t', List.mem_cons_of_mem t ht', hor⟩

/-- What trades is of the opposite side. -/
theorem Incoming.trades_side {i : Incoming} {book : Book} (hok : Ok book)
    {t : Trade OrderIds} (ht : t ∈ (i.swept book).trades) :
    t.resting.side = sideOf !i.isBuy := by
  obtain ⟨untouched, hsplit, -⟩ :=
    sweep_split i.isBuy i.price (book !i.isBuy) i.quantity
  refine hok.side (!i.isBuy) t.resting ?_
  rw [hsplit]
  exact List.mem_append_left _ (List.mem_map_of_mem ht)

/-- The answers to a NEW order are about its ticker and a side. -/
theorem answersTo_messages (i : Incoming) {book : Book} (hok : Ok book) :
    ∀ m ∈ answersTo c (i.messages book),
      m.tickerId = i.ids.tickerId ∧ Sided m := by
  intro m hm
  obtain ⟨m₀, hm₀, rfl, -⟩ := mem_answersTo.1 hm
  unfold Incoming.messages at hm₀
  rcases List.mem_append.1 hm₀ with hm₀ | hadd
  · rcases List.mem_cons.1 hm₀ with haccepted | hsweep
    · cases haccepted
      exact ⟨rfl, sided_sideOf (b := i.isBuy) rfl⟩
    · obtain ⟨t, ht, ⟨q, rfl⟩ | rfl⟩ := response_mem_sweep hsweep
      · exact ⟨rfl, sided_sideOf (b := i.isBuy) rfl⟩
      · refine ⟨rfl, sided_sideOf (b := !i.isBuy) ?_⟩
        exact Incoming.trades_side hok ht
  · split at hadd
    · cases hadd
    · rcases List.mem_singleton.1 hadd with ⟨⟩

theorem answersFor_accepted {i : Incoming} {b : Bool} {sent : List Sent} :
    answersFor i.ids.tickerId (sideOf b)
        (answersTo c (.response i.accepted :: sent))
      = (if i.ids.clientId = c ∧ b = i.isBuy then [readdressed i.accepted]
        else []) ++ answersFor i.ids.tickerId (sideOf b) (answersTo c sent) := by
  have hcons : answersTo c (.response i.accepted :: sent)
      = (if i.ids.clientId = c then [readdressed i.accepted] else [])
        ++ answersTo c sent := by
    have hresponses : responsesOf (.response i.accepted :: sent)
        = i.accepted :: responsesOf sent := rfl
    unfold answersTo
    rw [hresponses, List.map_cons, List.filter_cons]
    by_cases hclient : i.ids.clientId = c
    · rw [if_pos hclient, if_pos]
      · rfl
      · exact decide_eq_true hclient
    · rw [if_neg hclient, if_neg]
      · rfl
      · exact fun h => hclient (of_decide_eq_true h)
  rw [hcons, answersFor_append]
  congr 1
  by_cases hclient : i.ids.clientId = c
  · by_cases hb : b = i.isBuy
    · rw [if_pos hclient, if_pos ⟨hclient, hb⟩, hb]
      unfold answersFor
      rw [List.filter_cons_of_pos]
      · rfl
      · exact decide_eq_true ⟨rfl, rfl⟩
    · rw [if_pos hclient, if_neg fun h => hb h.2]
      unfold answersFor
      rw [List.filter_cons_of_neg, List.filter_nil]
      intro h
      exact hb (sideOf_injective (of_decide_eq_true h).2.symm)
  · rw [if_neg hclient, if_neg fun h => hclient h.1]
    rfl

/-- What comes to rest is not answered. -/
theorem answersTo_remainder (i : Incoming) (book : Book) :
    answersTo c (if (i.swept book).left = 0 then []
      else [.update (i.addUpdate (i.remainder book))]) = [] := by
  by_cases hleft : (i.swept book).left = 0
  · rw [if_pos hleft]
    rfl
  · rw [if_neg hleft]
    rfl

/-- What the aggressor's side hears of a NEW order. -/
theorem answersFor_messages_own (i : Incoming) {book : Book} (hok : Ok book) :
    answersFor i.ids.tickerId (sideOf i.isBuy) (answersTo c (i.messages book))
      = if i.ids.clientId = c then
          readdressed i.accepted :: i.ownFills i.quantity (i.swept book).trades
        else [] := by
  unfold Incoming.messages
  rw [List.cons_append, answersFor_accepted, answersTo_append,
    answersFor_append, answersTo_remainder, answersFor_sweep_own i _
      fun t ht => Incoming.trades_side hok ht]
  by_cases hown : i.ids.clientId = c
  · rw [if_pos ⟨hown, rfl⟩, if_pos hown, if_pos hown]
    exact congrArg _ (List.append_nil _)
  · rw [if_neg fun h => hown h.1, if_neg hown, if_neg hown]
    rfl

/-- What the opposite side hears. -/
theorem answersFor_messages_opposite (i : Incoming) {book : Book}
    (hok : Ok book) :
    answersFor i.ids.tickerId (sideOf !i.isBuy) (answersTo c (i.messages book))
      = (tradesOf c (i.swept book).trades).map i.restingFilled := by
  have hne : ¬ (i.ids.clientId = c ∧ (!i.isBuy) = i.isBuy) := fun h => by
    cases hb : i.isBuy <;> rw [hb] at h <;> cases h.2
  unfold Incoming.messages
  rw [List.cons_append, answersFor_accepted, answersTo_append,
    answersFor_append, answersTo_remainder, if_neg hne, answersFor_sweep_opposite i _
      fun t ht => Incoming.trades_side hok ht]
  exact List.append_nil _

/-- A NEW order and the client's order of its own side. -/
theorem told_own {i : Incoming} {book : Book} (hok : Ok book)
    {r : MatchingEngineClientRequest} (hnew : r.type = .new)
    (hclient : r.clientId = i.ids.clientId)
    (hid : r.orderId = i.ids.clientOrderId) (hside : r.side = sideOf i.isBuy)
    (hprice : r.price = i.price) (hquantity : r.quantity = i.quantity)
    (hnone : r.clientId = c → ordersOf c (book i.isBuy) = []) :
    Told c i.isBuy r (ordersOf c (book i.isBuy))
      (answersFor i.ids.tickerId (sideOf i.isBuy)
        (answersTo c (i.messages book)))
      (ordersOf c (i.apply book i.isBuy)) := by
  rw [answersFor_messages_own i hok]
  by_cases hown : i.ids.clientId = c
  · have hempty := hnone (hclient.trans hown)
    rw [if_pos hown, hempty]
    have hfills : FillsTo r.quantity
        (i.ownFills i.quantity (i.swept book).trades)
        (i.remainder book).quantity := by
      rw [hquantity]
      exact fillsTo_sweep i (book !i.isBuy) i.quantity
    have hplaced := Told.placed (b := i.isBuy) (i.remainder book)
      (readdressed i.accepted) (i.ownFills i.quantity (i.swept book).trades) rfl
      hnew (hclient.trans hown) hside hid.symm hprice.symm hfills
    have hafter : ordersOf c (i.apply book i.isBuy)
        = if (i.remainder book).quantity = 0 then [] else [i.remainder book] := by
      show _ = if (i.swept book).left = 0 then _ else _
      by_cases hleft : (i.swept book).left = 0
      · rw [Incoming.apply_spent hleft, Incoming.sweptBook_own, hempty,
          if_pos hleft]
      · rw [Incoming.apply_own hleft, if_neg hleft]
        exact ordersOf_place_own (hok.sorted i.isBuy) hown hempty
    rw [hafter]
    exact hplaced
  · rw [if_neg hown]
    have hafter : ordersOf c (i.apply book i.isBuy)
        = ordersOf c (book i.isBuy) := by
      by_cases hleft : (i.swept book).left = 0
      · rw [Incoming.apply_spent hleft, Incoming.sweptBook_own]
      · rw [Incoming.apply_own hleft]
        exact ordersOf_place_other (hok.sorted i.isBuy) hown
    rw [hafter]
    exact .unchanged _ (fun h => (hown (hclient.symm.trans h)).elim)
      fun h => (hown (hclient.symm.trans h)).elim

/-- A NEW order and the client's order of the opposite side. -/
theorem told_opposite {i : Incoming} {book : Book} (hok : Ok book)
    {r : MatchingEngineClientRequest} (hnew : r.type = .new)
    (hside : r.side = sideOf i.isBuy)
    (hone : (ordersOf c (book !i.isBuy)).length ≤ 1) :
    Told c (!i.isBuy) r (ordersOf c (book !i.isBuy))
      (answersFor i.ids.tickerId (sideOf !i.isBuy)
        (answersTo c (i.messages book)))
      (ordersOf c (i.apply book !i.isBuy)) := by
  have hother : r.side ≠ sideOf !i.isBuy := by
    rw [hside]
    exact sideOf_ne_not i.isBuy
  rw [answersFor_messages_opposite i hok, Incoming.apply_opposite]
  rcases i.swept_ordersOf hone with ⟨htrades, hrest⟩
    | ⟨t, hbefore, htrades, hrest⟩
  · rw [htrades, hrest]
    refine .unchanged _ (fun _ _ => hother) fun _ h => ?_
    rw [hnew] at h
    cases h
  · rw [htrades, hrest, hbefore]
    exact .filled t.resting (i.restingFilled t) rfl hnew fun _ => hother

/-- What is there afterwards was there, or is the request's order. -/
theorem Told.mem {b : Bool} {r : MatchingEngineClientRequest}
    {l l' : List (Resting OrderIds)} {ms : List MatchingEngineClientResponse}
    (h : Told c b r l ms l') {x : Resting OrderIds} (hx : x ∈ l') :
    (∃ y ∈ l, y.key.clientOrderId = x.key.clientOrderId)
      ∨ (x.key.clientOrderId = r.orderId ∧ r.type = .new ∧ r.clientId = c
        ∧ r.side = sideOf b) := by
  cases h with
  | unchanged _ _ _ => exact Or.inl ⟨x, hx, rfl⟩
  | filled y m _ _ _ =>
      split at hx
      · cases hx
      · rw [List.mem_singleton.1 hx]
        exact Or.inl ⟨y, List.mem_cons_self, rfl⟩
  | placed y m ms _ hnew hclient hside hid _ _ =>
      split at hx
      · cases hx
      · rw [List.mem_singleton.1 hx]
        exact Or.inr ⟨hid, hnew, hclient, hside⟩
  | cancelled y m _ _ _ _ => cases hx

theorem Told.length_le {b : Bool} {r : MatchingEngineClientRequest}
    {l l' : List (Resting OrderIds)} {ms : List MatchingEngineClientResponse}
    (h : Told c b r l ms l') (hl : l.length ≤ 1) : l'.length ≤ 1 := by
  cases h with
  | unchanged _ _ _ => exact hl
  | filled y m _ _ _ =>
      split
      · exact Nat.zero_le 1
      · exact Nat.le_refl 1
  | placed y m ms _ _ _ _ _ _ _ =>
      split
      · exact Nat.zero_le 1
      · exact Nat.le_refl 1
  | cancelled y m _ _ _ _ => exact Nat.zero_le 1

/-- No order of a cancelled id is there afterwards. -/
theorem Told.not_cancelled {b : Bool} {r : MatchingEngineClientRequest}
    {l l' : List (Resting OrderIds)} {ms : List MatchingEngineClientResponse}
    (h : Told c b r l ms l') (hcancel : r.type = .cancel)
    (hclient : r.clientId = c) :
    ∀ x ∈ l', x.key.clientOrderId ≠ r.orderId := by
  cases h with
  | unchanged _ _ hother => exact hother hclient hcancel
  | filled y m _ hnew _ =>
      rw [hcancel] at hnew
      cases hnew
  | placed y m ms _ hnew _ _ _ _ _ =>
      rw [hcancel] at hnew
      cases hnew
  | cancelled y m _ _ _ _ =>
      intro x hx
      cases hx

end Reference

namespace MatchingEngineOrderBook

open Reference

variable {c : ClientID} {s s' : MatchingEngineOrderBook} {lay : Layout}
  {r : MatchingEngineClientRequest}

/-- A client's order of a side in a book. -/
abbrev mine (s : MatchingEngineOrderBook) (c : ClientID) (b : Bool) :
    List (Resting OrderIds) := ordersOf c (s.book b)

/-- At most one order a side, of different ids, which the index knows. -/
structure OneEach (c : ClientID) (s : MatchingEngineOrderBook) : Prop where
  one : ∀ b, (s.mine c b).length ≤ 1
  apart : ∀ b, ∀ x ∈ s.mine c b, ∀ y ∈ s.mine c !b,
    x.key.clientOrderId ≠ y.key.clientOrderId
  indexed : ∀ b, ∀ x ∈ s.mine c b,
    s.cidOidToOrder c x.key.clientOrderId ≠ none

/-- The request is no NEW order of the client's, or one of a new id for a
side where it has none. -/
def Fresh (c : ClientID) (s : MatchingEngineOrderBook)
    (r : MatchingEngineClientRequest) : Prop :=
  r.type = .new → r.clientId = c →
    (∀ b, r.side = sideOf b → s.mine c b = [])
      ∧ ∀ b, ∀ x ∈ s.mine c b, x.key.clientOrderId ≠ r.orderId

/-- The client is told of every change of its orders. -/
structure Informs (c : ClientID) (s s' : MatchingEngineOrderBook)
    (r : MatchingEngineClientRequest) (out : List Sent) : Prop where
  sent : s'.sent = s.sent ++ out
  answers : ∀ m ∈ answersTo c out, m.tickerId = r.tickerId ∧ Sided m
  told : ∀ b, Told c b r (s.mine c b)
    (answersFor r.tickerId (sideOf b) (answersTo c out)) (s'.mine c b)

/-- Ids stay different. -/
theorem Informs.apart {out : List Sent} (h : Informs c s s' r out)
    (heach : OneEach c s) (hfresh : Fresh c s r) :
    ∀ b, ∀ x ∈ s'.mine c b, ∀ y ∈ s'.mine c !b,
      x.key.clientOrderId ≠ y.key.clientOrderId := by
  intro b x hx y hy heq
  rcases (h.told b).mem hx with ⟨x₀, hx₀, hxid⟩ | ⟨hxid, hnew, hclient, hside⟩
  · rcases (h.told !b).mem hy with ⟨y₀, hy₀, hyid⟩ | ⟨hyid, hnew, hclient, -⟩
    · exact heach.apart b x₀ hx₀ y₀ hy₀ (hxid.trans (heq.trans hyid.symm))
    · exact (hfresh hnew hclient).2 b x₀ hx₀ (hxid.trans (heq.trans hyid))
  · rcases (h.told !b).mem hy with ⟨y₀, hy₀, hyid⟩ | ⟨-, -, -, hside'⟩
    · exact (hfresh hnew hclient).2 _ y₀ hy₀
        (hyid.trans (heq.symm.trans hxid))
    · exact sideOf_ne_not b (hside.symm.trans hside')

/-- A NEW order. -/
theorem informs_of_add {lay' : Layout} (hgood : Good s lay) (hv : Valid r)
    (hnew : r.type = .new) (hafter : AfterAdd (s.incoming r) s s' lay')
    (heach : OneEach c s) (hfresh : Fresh c s r) :
    Informs c s s' r ((s.incoming r).messages s.book) := by
  obtain ⟨i, hi⟩ : ∃ i, i = s.incoming r := ⟨_, rfl⟩
  have hside : r.side = sideOf i.isBuy := by
    rw [hi]
    show r.side = sideOf (r.side == .buy)
    rcases hv.side hnew with h | h <;> rw [h] <;> rfl
  rw [← hi] at hafter ⊢
  have hticker : r.tickerId = i.ids.tickerId := by rw [hi]; rfl
  refine ⟨hafter.sent, ?_, fun b => ?_⟩
  · rw [hticker]
    exact answersTo_messages i hgood.ok
  · unfold mine
    rw [hafter.book, hticker]
    rcases i.isBuy_or b with hb | hb
    · rw [hb]
      exact told_own hgood.ok hnew (by rw [hi]; rfl) (by rw [hi]; rfl) hside
        (by rw [hi]; rfl) (by rw [hi]; rfl) fun hclient =>
          (hfresh hnew hclient).1 i.isBuy hside
    · rw [hb]
      exact told_opposite hgood.ok hnew hside (heach.one _)

/-- A client's order that is used up in a sweep rested on the opposite
side, and does not any more. -/
theorem not_usedUp {lay' : Layout} {i : Incoming}
    (hafter : AfterAdd i s s' lay') (heach : OneEach c s) {b : Bool}
    {x y : Resting OrderIds} (hx : x ∈ s'.mine c b) (hy : y ∈ s.mine c b)
    (hid : y.key.clientOrderId = x.key.clientOrderId) :
    ¬ UsedUp (i.swept s.book).trades c x.key.clientOrderId := by
  intro h
  obtain ⟨t, ht, hzero, hclient, horder⟩ := h
  have hmine : t ∈ tradesOf c (i.swept s.book).trades :=
    List.mem_filter.2 ⟨ht, decide_eq_true hclient⟩
  have hopposite : t.resting ∈ s.mine c !i.isBuy := by
    obtain ⟨untouched, hsplit, -⟩ :=
      sweep_split i.isBuy i.price (s.book !i.isBuy) i.quantity
    refine List.mem_filter.2 ⟨?_, decide_eq_true hclient⟩
    rw [hsplit]
    exact List.mem_append_left _ (List.mem_map_of_mem ht)
  rcases i.isBuy_or b with hb | hb
  · rw [hb] at hy
    exact heach.apart i.isBuy y hy t.resting hopposite
      (hid.trans horder.symm)
  · rcases i.swept_ordersOf (heach.one !i.isBuy) with
      ⟨htrades, -⟩ | ⟨t₀, -, htrades, hrest⟩
    · rw [htrades] at hmine
      cases hmine
    · rw [htrades] at hmine
      have hrest' : s'.mine c b = afterTrade t₀ := by
        unfold mine
        rw [hafter.book, hb, Incoming.apply_opposite]
        exact hrest
      rw [hrest', ← List.mem_singleton.1 hmine, afterTrade, if_pos hzero] at hx
      cases hx

/-- Its order is indexed, and what else rests still is. -/
theorem indexed_of_add {lay' : Layout} (hgood : Good s lay) (hv : Valid r)
    (hnew : r.type = .new) (hafter : AfterAdd (s.incoming r) s s' lay')
    (heach : OneEach c s) (hfresh : Fresh c s r) :
    ∀ b, ∀ x ∈ s'.mine c b, s'.cidOidToOrder c x.key.clientOrderId ≠ none := by
  have hinforms := informs_of_add hgood hv hnew hafter heach hfresh
  obtain ⟨i, hi⟩ : ∃ i, i = s.incoming r := ⟨_, rfl⟩
  rw [← hi] at hafter
  intro b x hx
  have hclient : i.ids.clientId = r.clientId := by rw [hi]; rfl
  have hid : i.ids.clientOrderId = r.orderId := by rw [hi]; rfl
  by_cases hown : (i.swept s.book).left ≠ 0 ∧ i.ids.clientId = c
      ∧ i.ids.clientOrderId = x.key.clientOrderId
  · obtain ⟨hleft, hc, ho⟩ := hown
    rw [← hc, ← ho]
    exact hafter.rested hleft
  · -- the order was there, and no trade used it up
    obtain ⟨y, hy, hyid⟩ : ∃ y ∈ s.mine c b,
        y.key.clientOrderId = x.key.clientOrderId := by
      rcases (hinforms.told b).mem hx with hwas | ⟨hxid, -, hc, hside⟩
      · exact hwas
      · exfalso
        have hbuy : b = i.isBuy := by
          apply sideOf_injective
          rw [← hside, hi]
          show r.side = sideOf (r.side == .buy)
          rcases hv.side hnew with h | h <;> rw [h] <;> rfl
        have hleft : (i.swept s.book).left = 0 := by
          by_contra hleft
          exact hown ⟨hleft, hclient.trans hc, hid.trans hxid.symm⟩
        have hsame : s'.book b = s.book b := by
          rw [hafter.book, hbuy, Incoming.apply_spent hleft,
            Incoming.sweptBook_own]
        have hempty := (hfresh hnew hc).1 b hside
        unfold mine at hx hempty
        rw [hsame, hempty] at hx
        cases hx
    rw [hafter.index c x.key.clientOrderId]
    · rw [if_neg (not_usedUp hafter heach hx hy hyid), ← hyid]
      exact heach.indexed b y hy
    · by_cases hleft : (i.swept s.book).left = 0
      · exact Or.inl hleft
      · exact Or.inr fun hids => hown ⟨hleft, hids⟩

/-- An order that is alone in its list. -/
theorem eq_singleton_of_mem {α : Type} {l : List α} {x : α}
    (hone : l.length ≤ 1) (hx : x ∈ l) : l = [x] := by
  cases l with
  | nil => cases hx
  | cons y l =>
      rw [List.length_cons] at hone
      have hl : l = [] := List.eq_nil_of_length_eq_zero (by omega)
      rw [hl] at hx ⊢
      rw [List.mem_singleton.1 hx]

/-- A CANCEL that finds an order. -/
theorem informs_of_cancel {lay' : Layout} {b : Bool} {x : Resting OrderIds}
    (hgood : Good s lay) (hcancel : r.type = .cancel)
    (hafter : AfterCancel r.clientId r.orderId r.tickerId b x s s' lay')
    (heach : OneEach c s) :
    Informs c s s' r [.update (cancelUpdate r.tickerId x),
      .response (cancelled r.clientId r.orderId r.tickerId x)] := by
  obtain ⟨l, m, hbefore, hbook⟩ := hafter.book
  have hside : x.side = sideOf b := by
    refine hgood.ok.side b x ?_
    rw [hbefore]
    exact List.mem_append_right l List.mem_cons_self
  obtain ⟨hclient, hid⟩ := hafter.owned
  have hanswers : answersTo c [.update (cancelUpdate r.tickerId x),
      .response (cancelled r.clientId r.orderId r.tickerId x)]
      = if r.clientId = c then
          [cancelled r.clientId r.orderId r.tickerId x] else [] := by
    unfold answersTo responsesOf
    by_cases hc : r.clientId = c
    · simp [readdressed, cancelled, hc]
    · simp [readdressed, cancelled, hc]
  have hnotNew : r.clientId = c → r.type = .new → ∀ b, r.side ≠ sideOf b := by
    intro _ h
    rw [hcancel] at h
    cases h
  refine ⟨hafter.sent, fun a ha => ?_, fun b' => ?_⟩
  · rw [hanswers] at ha
    split at ha
    · rw [List.mem_singleton.1 ha]
      exact ⟨rfl, sided_sideOf (b := b) hside⟩
    · cases ha
  · rw [hanswers]
    by_cases hc : r.clientId = c
    · rw [if_pos hc]
      have hxc : x.key.clientId = c := hclient.trans hc
      have hx : x ∈ s.mine c b := by
        refine List.mem_filter.2 ⟨?_, decide_eq_true hxc⟩
        rw [hbefore]
        exact List.mem_append_right l List.mem_cons_self
      -- its own side, or the opposite one, which has another order id
      by_cases hb : b' = b
      · rw [hb]
        have hmine := eq_singleton_of_mem (heach.one b) hx
        have hgone : s'.mine c b = [] := by
          unfold mine at hmine ⊢
          rw [hbefore, ordersOf_append, ordersOf_cons_own hxc] at hmine
          have hlength := congrArg List.length hmine
          rw [List.length_append, List.length_cons, List.length_singleton]
            at hlength
          rw [hbook, ordersOf_append]
          exact List.eq_nil_of_length_eq_zero (by
            rw [List.length_append]
            omega)
        have hfor : answersFor r.tickerId (sideOf b)
            [cancelled r.clientId r.orderId r.tickerId x]
            = [cancelled r.clientId r.orderId r.tickerId x] :=
          List.filter_cons_of_pos (decide_eq_true ⟨rfl, hside⟩)
        rw [hmine, hgone, hfor]
        exact .cancelled x _ rfl hcancel hc hid
      · have hsame : s'.mine c b' = s.mine c b' := by
          unfold mine
          rw [hafter.other b' hb]
        have hfor : answersFor r.tickerId (sideOf b')
            [cancelled r.clientId r.orderId r.tickerId x] = [] := by
          refine List.filter_cons_of_neg fun h => hb ?_
          exact sideOf_injective ((of_decide_eq_true h).2.symm.trans hside)
        rw [hsame, hfor]
        refine .unchanged _ (fun hc h => hnotNew hc h b') fun _ _ y hy heq => ?_
        have hb' : b' = !b := by
          cases b <;> cases b' <;> simp_all
        rw [hb'] at hy
        exact heach.apart b x hx y hy (hid.trans heq.symm)
    · rw [if_neg hc]
      have hsame : s'.mine c b' = s.mine c b' := by
        unfold mine
        by_cases hb : b' = b
        · have hxc : x.key.clientId ≠ c := fun h => hc (hclient.symm.trans h)
          rw [hb, hbook, hbefore, ordersOf_append, ordersOf_append,
            ordersOf_cons_other hxc]
        · rw [hafter.other b' hb]
      rw [hsame]
      exact .unchanged _ (fun h => (hc h).elim) fun h => (hc h).elim

/-- Every request of a clean run informs, and keeps the client's orders one
a side. -/
theorem informs_of_cleanStep (hgood : Good s lay) (hstep : CleanStep s r s')
    (heach : OneEach c s) (hfresh : Fresh c s r) :
    ∃ out, Informs c s s' r out ∧ OneEach c s' := by
  suffices h : ∃ out, Informs c s s' r out ∧ ∀ b, ∀ x ∈ s'.mine c b,
      s'.cidOidToOrder c x.key.clientOrderId ≠ none by
    obtain ⟨out, hinforms, hindexed⟩ := h
    exact ⟨out, hinforms, fun b => (hinforms.told b).length_le (heach.one b),
      hinforms.apart heach hfresh, hindexed⟩
  rcases step_cases hgood.stored hstep.valid hstep.processed
      (hstep.free hgood.stored) with
    ⟨hnew, lay', hafter⟩ | ⟨hcancel, hnone, rfl⟩ |
    ⟨hcancel, -, lay', b, x, hafter⟩
  · exact ⟨_, informs_of_add hgood hstep.valid hnew hafter heach hfresh,
      indexed_of_add hgood hstep.valid hnew hafter heach hfresh⟩
  · refine ⟨_, ⟨rfl, fun m hm => ?_, fun b => ?_⟩, heach.indexed⟩
    · obtain ⟨m₀, hm₀, rfl, -⟩ := mem_answersTo.1 hm
      cases List.mem_singleton.1 hm₀
      exact ⟨rfl, Or.inr (Or.inr ⟨rfl, rfl⟩)⟩
    · have hfor : answersFor r.tickerId (sideOf b) (answersTo c
          [.response (cancelRejected r.clientId r.orderId r.tickerId)])
          = [] := by
        refine List.filter_eq_nil_iff.2 fun m hm heq => ?_
        obtain ⟨m₀, hm₀, rfl, -⟩ := mem_answersTo.1 hm
        cases List.mem_singleton.1 hm₀
        have hside := (of_decide_eq_true heq).2
        cases b <;> cases hside
      rw [hfor]
      refine .unchanged _ (fun _ h => ?_) fun hc _ y hy heq => ?_
      · rw [hcancel] at h
        cases h
      · have hindexed := heach.indexed b y hy
        rw [heq, ← hc] at hindexed
        exact hindexed hnone
  · refine ⟨_, informs_of_cancel hgood hcancel hafter heach, fun b' y hy => ?_⟩
    have hmem : y ∈ s.mine c b' := by
      obtain ⟨l, m, hbefore, hbook⟩ := hafter.book
      unfold mine at hy ⊢
      by_cases hb : b' = b
      · rw [hb, hbook] at hy
        rw [hb, hbefore]
        obtain ⟨hin, hc⟩ := List.mem_filter.1 hy
        refine List.mem_filter.2 ⟨?_, hc⟩
        rcases List.mem_append.1 hin with h | h
        · exact List.mem_append_left _ h
        · exact List.mem_append_right _ (List.mem_cons_of_mem x h)
      · rwa [hafter.other b' hb] at hy
    rw [hafter.index, if_neg]
    · exact heach.indexed b' y hmem
    · intro h
      obtain ⟨hc, hid⟩ := h
      have hinforms := informs_of_cancel hgood hcancel hafter heach
      exact (hinforms.told b').not_cancelled hcancel hc y hy hid.symm

end MatchingEngineOrderBook

end ElectronicTrading
