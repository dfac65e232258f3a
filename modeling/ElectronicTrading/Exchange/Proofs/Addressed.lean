/-
Who a response is about, and who it is sent to.

The relocation of Untrusted.lean again, with other marks: every order of a
book carries ids it was submitted under (`Keyed`). So a FILLED names an
order that was submitted, whoever owns it, and what `cancel` answers
names the request. ACCEPTED does not: `add` lists the ticker id before the
client id, so it goes to the client whose number is the ticker's.

`taken_step` is the lemma for one request, returned from or not:
everything it sent is addressed exactly if the request is `Aligned`. In a
run of aligned requests the clients of all responses have sent requests,
and the server has a socket for each (`bound_of_run`).
-/
import ElectronicTrading.Exchange.Reference
import ElectronicTrading.Exchange.Proofs.Untrusted

namespace ElectronicTrading

open Exec Runs Sequenced

namespace MatchingEngineOrderBook

open Ladder Relocation

-- =============================================================== whose orders

/-- Every pointer leads to a block that was handed out, every order has
ids in `P`. -/
structure Keyed (P : OrderIds → Prop) (r : Relocation OrderIds)
    (s : MatchingEngineOrderBook) : Prop where
  marked : ∃ orders levels, r = marked P orders levels
  index : ∀ c o, r.OrderPtr (s.cidOidToOrder c o) (s.cidOidToOrder c o)
  ladder : LadderCopy r s.ladder s.ladder

/-- What the book has handed over since `base`: only responses `G`. Its
next market order id is `n`. -/
structure Tells (G : MatchingEngineClientResponse → Prop) (base : List Sent)
    (n : OrderID) (s : MatchingEngineOrderBook) : Prop where
  sent : ∃ out, s.sent = base ++ out ∧ ∀ m, .response m ∈ out → G m
  next : s.nextMarketOrderId = n

variable {P P' : OrderIds → Prop} {r : Relocation OrderIds}
  {G : MatchingEngineClientResponse → Prop} {base : List Sent} {n : OrderID}
  {s : MatchingEngineOrderBook}

theorem keyed_new : ∃ r, Keyed P r new :=
  ⟨MatchingEngineOrderBook.marked P (fun _ => False) fun _ => False,
    ⟨_, _, rfl⟩, fun _ _ => ptrCopy_none, ladderCopy_new P⟩

/-- More ids may be used. -/
theorem Keyed.mono (h : Keyed P r s) (hP : ∀ ids, P ids → P' ids) :
    ∃ r', Keyed P' r' s := by
  obtain ⟨⟨orders, levels, rfl⟩, hindex, hladder⟩ := h
  have hcopy : ∀ {o o' : Order OrderIds},
      (MatchingEngineOrderBook.marked P orders levels).OrderCopy o o' →
      (MatchingEngineOrderBook.marked P' orders levels).OrderCopy o o' :=
    fun ho => ⟨hP _ ho.stamped, ho.key, ho.side, ho.price, ho.quantity,
      ho.priority, ho.prevOrder, ho.nextOrder⟩
  refine ⟨MatchingEngineOrderBook.marked P' orders levels, ⟨_, _, rfl⟩,
    hindex, ?_⟩
  exact
    { orders := { hladder.orders with
        object := fun p hp => hcopy (hladder.orders.object p hp) }
      levels := { hladder.levels with
        object := fun p hp =>
          have hl := hladder.levels.object p hp
          ⟨hl.side, hl.price, hl.firstOrder, hl.prevEntry, hl.nextEntry⟩ }
      best := hladder.best
      slots := hladder.slots }

/-- The ids of an order that was handed out. -/
theorem Keyed.key {o : Order OrderIds} (h : Keyed P r s)
    (ho : r.OrderCopy o o) : P o.key := by
  obtain ⟨orders, levels, rfl⟩ := h.marked
  exact ho.stamped

/-- One response more. -/
theorem Tells.response (h : Tells G base n s)
    {m : MatchingEngineClientResponse} (hm : G m) :
    Tells G base n { s with sent := s.sent ++ [.response m] } := by
  obtain ⟨out, hout, hall⟩ := h.sent
  refine ⟨⟨out ++ [.response m], ?_, fun m' hm' => ?_⟩, h.next⟩
  · show s.sent ++ [.response m] = base ++ (out ++ [.response m])
    rw [hout, List.append_assoc]
  · rcases List.mem_append.1 hm' with hold | hnew
    · exact hall m' hold
    · cases List.mem_singleton.1 hnew
      exact hm

theorem Tells.update (h : Tells G base n s) (u : MatchingEngineMarketUpdate) :
    Tells G base n { s with sent := s.sent ++ [.update u] } := by
  obtain ⟨out, hout, hall⟩ := h.sent
  refine ⟨⟨out ++ [.update u], ?_, fun m hm => ?_⟩, h.next⟩
  · show s.sent ++ [.update u] = base ++ (out ++ [.update u])
    rw [hout, List.append_assoc]
  · rcases List.mem_append.1 hm with hold | hnew
    · exact hall m hold
    · cases List.mem_singleton.1 hnew

/-- Both of them. -/
structure Kept (P : OrderIds → Prop) (r : Relocation OrderIds)
    (G : MatchingEngineClientResponse → Prop) (base : List Sent) (n : OrderID)
    (s : MatchingEngineOrderBook) : Prop where
  keyed : Keyed P r s
  tells : Tells G base n s

/-- A program that keeps the orders' ids and sends only responses `G`,
also if it stops. -/
def Wary {α : Type} (P : OrderIds → Prop) (r : Relocation OrderIds)
    (G : MatchingEngineClientResponse → Prop) (base : List Sent) (n : OrderID)
    (x : Member α) (V : α → Prop) : Prop :=
  Spec (Kept P r G base n) x (fun a s => V a ∧ Kept P r G base n s)
    fun _ => Tells G base n

theorem Wary.bind {α β : Type} {x : Member β} {f : β → Member α}
    {V : β → Prop} {Q : α → MatchingEngineOrderBook → Prop}
    (hx : Wary P r G base n x V)
    (hf : ∀ b, V b → Spec (Kept P r G base n) (f b) Q
      fun _ => Tells G base n) :
    Spec (Kept P r G base n) (x >>= f) Q fun _ => Tells G base n := by
  apply Spec.bind hx
  intro b s hs
  exact hf b hs.1 s hs.2

theorem onLadder_wary {α : Type} {x : Prog (Ladder OrderIds) α}
    {V : α → α → Prop} (h : Lockstep (LadderCopy r) x x V) :
    Wary P r G base n (onLadder x) fun a => V a a := by
  apply Spec.zoom
  intro s hs
  have hcopy := h s.ladder s.ladder hs.keyed.ladder
  cases hrun : x.run s.ladder with
  | ok a l =>
      rw [hrun] at hcopy
      exact ⟨hcopy.1, ⟨hs.keyed.marked, hs.keyed.index, hcopy.2⟩,
        hs.tells.sent, hs.tells.next⟩
  | error e l => exact ⟨hs.tells.sent, hs.tells.next⟩

/-- A ladder's program that hands out a block. -/
theorem onLadder_marks {α : Type} {x : Prog (Ladder OrderIds) α}
    {V : Relocation OrderIds → α → α → Prop}
    (h : Sim (LadderCopy r) x x fun a b s t =>
      ∃ r', r.le r' ∧ V r' a b ∧ LadderCopy r' s t) :
    Spec (Kept P r G base n) (onLadder x) (fun a s => ∃ r', r.le r'
      ∧ V r' a a ∧ Kept P r' G base n s) fun _ => Tells G base n := by
  apply Spec.zoom
  intro s hs
  have hcopy := h s.ladder s.ladder hs.keyed.ladder
  cases hrun : x.run s.ladder with
  | ok a l =>
      rw [hrun] at hcopy
      obtain ⟨r', hle, ha, hl⟩ := hcopy
      exact ⟨r', hle, ha, ⟨marked_of_le hs.keyed.marked hle,
        fun c o => hle.orderPtr (hs.keyed.index c o), hl⟩,
        hs.tells.sent, hs.tells.next⟩
  | error e l => exact ⟨hs.tells.sent, hs.tells.next⟩

theorem sendClientResponse_wary {m : MatchingEngineClientResponse}
    (hm : G m) : Wary P r G base n (sendClientResponse m) fun _ => True :=
  Spec.modify fun _ hs => ⟨trivial, ⟨hs.keyed.marked, hs.keyed.index,
    hs.keyed.ladder⟩, hs.tells.response hm⟩

theorem sendMarketUpdate_wary (u : MatchingEngineMarketUpdate) :
    Wary P r G base n (sendMarketUpdate u) fun _ => True :=
  Spec.modify fun _ hs => ⟨trivial, ⟨hs.keyed.marked, hs.keyed.index,
    hs.keyed.ladder⟩, hs.tells.update u⟩

theorem setClientOrder_wary (c : ClientID) (o : OrderID) {p : Option Ptr}
    (hp : r.OrderPtr p p) :
    Wary P r G base n (setClientOrder c o p) fun _ => True := by
  intro s hs
  unfold setClientOrder
  simp only [EStateM.run_bind, run_assert]
  by_cases hrange : inRange c o = true
  · simp only [hrange, if_true, EStateM.run_modify]
    refine ⟨trivial, ⟨hs.keyed.marked, fun d i => ?_, hs.keyed.ladder⟩,
      hs.tells.sent, hs.tells.next⟩
    show r.OrderPtr (if d = c ∧ i = o then p else s.cidOidToOrder d i)
      (if d = c ∧ i = o then p else s.cidOidToOrder d i)
    split
    · exact hp
    · exact hs.keyed.index d i
  · simp only [hrange]
    exact hs.tells

-- ================================================================ its members

theorem removeOrder_wary {p : Option Ptr} (hp : r.OrderPtr p p) :
    Wary P r G base n (removeOrder p) fun _ => True := by
  unfold removeOrder
  apply Wary.bind (onLadder_wary (unlinkOrder_copy hp))
  intro _ _
  apply Wary.bind (onLadder_wary (readOrder_copy hp))
  intro o ho
  apply Wary.bind (setClientOrder_wary _ _ ptrCopy_none)
  intro _ _
  exact onLadder_wary (deallocateOrder_copy hp)

/-- A FILLED with the ids of an order in `P` may be sent. -/
def Fills (P : OrderIds → Prop) (G : MatchingEngineClientResponse → Prop)
    (tickerId : TickerID) : Prop :=
  ∀ (ids : OrderIds) (m : MatchingEngineClientResponse), P ids →
    m.type = .filled → m.tickerId = tickerId → m.clientId = ids.clientId →
    m.clientOrderId = ids.clientOrderId →
    m.marketOrderId = ids.marketOrderId → G m

section sweep

variable {tickerId : TickerID} {clientId : ClientID} {side : Side}
  {clientOrderId newMarketOrderId : OrderID}

/-- A fill names the two orders that meet. -/
theorem matchOrder_wary (hfills : Fills P G tickerId)
    (hself : P ⟨tickerId, clientId, clientOrderId, newMarketOrderId⟩)
    {p : Option Ptr} (hp : r.OrderPtr p p) (leavesQuantity : Quantity) :
    Wary P r G base n (matchOrder tickerId clientId side clientOrderId
      newMarketOrderId p leavesQuantity) fun _ => True := by
  unfold matchOrder
  apply Wary.bind (onLadder_wary (readOrder_copy hp))
  intro o _
  refine Wary.bind (onLadder_wary (writeOrder_copy hp
    fun _ _ h => { h with quantity := rfl })) fun _ _ => ?_
  refine Wary.bind (sendClientResponse_wary
    (hfills _ _ hself rfl rfl rfl rfl rfl)) fun _ _ => ?_
  apply Wary.bind (onLadder_wary (readOrder_copy hp))
  intro o' ho'
  apply Spec.of_forall
  intro s hs
  have hkey := hs.keyed.key ho'
  rintro _ rfl
  refine Wary.bind (sendClientResponse_wary
    (hfills _ _ hkey rfl rfl rfl rfl rfl)) (fun _ _ => ?_) _ hs
  dsimp only
  refine Spec.ite (fun _ => ?_) fun _ => ?_
  · apply Wary.bind (sendMarketUpdate_wary _)
    intro _ _
    apply Wary.bind (removeOrder_wary hp)
    intro _ _
    exact Spec.pure fun s hs => ⟨trivial, hs⟩
  · apply Wary.bind (sendMarketUpdate_wary _)
    intro _ _
    exact Spec.pure fun s hs => ⟨trivial, hs⟩

theorem matchWhile_wary (hfills : Fills P G tickerId)
    (hself : P ⟨tickerId, clientId, clientOrderId, newMarketOrderId⟩)
    (isBuy : Bool) (stop : Price → Bool) (fuel : Nat) :
    ∀ leavesQuantity : Quantity,
      Wary P r G base n (matchWhile isBuy stop tickerId clientId side
        clientOrderId newMarketOrderId fuel leavesQuantity)
        fun _ => True := by
  induction fuel with
  | zero => exact fun _ => Spec.throw fun _ hs => hs.tells
  | succ fuel ih =>
      intro leavesQuantity
      have hdone : ∀ q : Quantity,
          Wary P r G base n (Pure.pure q) fun _ => True :=
        fun q => Spec.pure fun s hs => ⟨trivial, hs⟩
      unfold matchWhile
      apply Spec.get_bind
      intro s hs
      have hbest := hs.keyed.ladder.best (!isBuy)
      dsimp only
      refine Spec.ite (fun _ => hdone _) fun _ => ?_
      apply Wary.bind (onLadder_wary (readLevel_copy hbest))
      intro l hl
      apply Wary.bind (onLadder_wary (readOrder_copy hl.firstOrder))
      intro o _
      refine Spec.ite (fun _ => hdone _) fun _ => ?_
      apply Wary.bind (matchOrder_wary hfills hself hl.firstOrder _)
      intro q _
      exact ih q

theorem checkForMatch_wary (hfills : Fills P G tickerId)
    (hself : P ⟨tickerId, clientId, clientOrderId, newMarketOrderId⟩)
    (price : Price) (quantity : Quantity) :
    Wary P r G base n (checkForMatch clientId clientOrderId tickerId side price
      quantity newMarketOrderId) fun _ => True := by
  unfold checkForMatch
  apply Spec.get_bind
  intro s _
  refine Spec.ite (fun _ => matchWhile_wary hfills hself _ _ _ _) fun _ => ?_
  refine Spec.ite (fun _ => matchWhile_wary hfills hself _ _ _ _) fun _ => ?_
  exact Spec.pure fun s hs => ⟨trivial, hs⟩

end sweep

theorem addOrder_wary {p : Option Ptr} (hp : r.OrderPtr p p) :
    Spec (Kept P r G base n) (addOrder p) (fun _ s => ∃ r',
      Kept P r' G base n s) fun _ => Tells G base n := by
  unfold addOrder
  refine Spec.bind (onLadder_marks (V := fun _ _ _ => True)
    (Sim.mono (linkOrder_copy hp) (fun _ _ h => h)
      fun _ _ _ _ ⟨r', hle, hst⟩ => ⟨r', hle, trivial, hst⟩)) fun _ => ?_
  intro s h
  obtain ⟨r', hle, -, hs⟩ := h
  have hp' := hle.orderPtr hp
  refine Wary.bind (onLadder_wary (readOrder_copy hp')) (fun o ho => ?_) s hs
  exact Spec.mono (setClientOrder_wary _ _ hp') (fun _ h => h)
    (fun _ _ h => ⟨r', h.2⟩) fun _ _ h => h

/-- The order that rests has the ids it was submitted under. -/
theorem rest_wary {clientId : ClientID} {clientOrderId : OrderID}
    {tickerId : TickerID} {newMarketOrderId : OrderID}
    (hself : P ⟨tickerId, clientId, clientOrderId, newMarketOrderId⟩)
    (side : Side) (price : Price) (leavesQuantity : Quantity) :
    Spec (Kept P r G base n) (rest clientId clientOrderId tickerId side price
      newMarketOrderId leavesQuantity) (fun _ s => ∃ r',
      Kept P r' G base n s) fun _ => Tells G base n := by
  unfold rest
  apply Wary.bind (onLadder_wary (getNextPriority_copy price))
  intro priority _ s hs
  have hstamped : r.stamped
      ⟨tickerId, clientId, clientOrderId, newMarketOrderId⟩ := by
    obtain ⟨orders, levels, rfl⟩ := hs.keyed.marked
    exact hself
  refine Spec.bind (onLadder_marks (V := fun r' x y => r'.OrderPtr x y)
    (allocateOrder_copy ⟨hstamped, rfl, rfl, rfl, rfl, rfl, ptrCopy_none,
      ptrCopy_none⟩)) (fun p => ?_) s hs
  intro s h
  obtain ⟨r', -, hp, hs⟩ := h
  refine Spec.bind (addOrder_wary hp) (fun _ => ?_) s hs
  exact Spec.modify fun s ⟨r, hs⟩ => ⟨r, ⟨hs.keyed.marked, hs.keyed.index,
    hs.keyed.ladder⟩, hs.tells.update _⟩

-- ================================================================= a request

/-- The response is about the request, or about an order that was
submitted under ids in `P`, and addressed to who sent it. -/
def Addressed (P : OrderIds → Prop) (request : MatchingEngineClientRequest)
    (m : MatchingEngineClientResponse) : Prop :=
  match m.type with
  | .filled => m.tickerId = request.tickerId
      ∧ P ⟨request.tickerId, m.clientId, m.clientOrderId, m.marketOrderId⟩
  | _ => m.clientId = request.clientId ∧ m.tickerId = request.tickerId
      ∧ m.clientOrderId = request.orderId

theorem Addressed.mono {request : MatchingEngineClientRequest}
    {m : MatchingEngineClientResponse} (h : Addressed P request m)
    (hP : ∀ ids, P ids → P' ids) : Addressed P' request m := by
  unfold Addressed at h ⊢
  split
  · next htype =>
    rw [htype] at h
    exact ⟨h.1, hP _ h.2⟩
  · next htype =>
    split at h
    · next hfilled => exact (htype hfilled).elim
    · exact h

/-- What `add` sends first. -/
def accepted (request : MatchingEngineClientRequest) (n : OrderID) :
    MatchingEngineClientResponse :=
  Reference.acceptance
    ⟨request.tickerId, request.clientId, request.orderId, n⟩ request.side
    request.price request.quantity

/-- What a request is answered at once, and how many orders it submits. -/
def answer (request : MatchingEngineClientRequest) (n : OrderID) : List Sent :=
  if request.type = .new then [.response (accepted request n)] else []

def nextAfter (request : MatchingEngineClientRequest) (n : OrderID) :
    OrderID :=
  if request.type = .new then n + 1 else n

theorem fills_addressed (request : MatchingEngineClientRequest)
    (hticker : ∀ ids, P ids → ids.tickerId = request.tickerId) :
    Fills P (Addressed P request) request.tickerId := by
  intro ids m hids htype hm hclient horder hmarket
  unfold Addressed
  rw [htype]
  refine ⟨hm, ?_⟩
  rw [hclient, horder, hmarket, ← hticker ids hids]
  exact hids

theorem add_wary {request : MatchingEngineClientRequest}
    (hticker : ∀ ids, P ids → ids.tickerId = request.tickerId)
    (hself : P ⟨request.tickerId, request.clientId, request.orderId, n⟩) :
    Spec (fun s => Keyed P r s ∧ s.sent = base ∧ s.nextMarketOrderId = n)
      (add request.clientId request.orderId request.tickerId request.side
        request.price request.quantity)
      (fun _ s => ∃ r', Kept P r' (Addressed P request)
        (base ++ [.response (accepted request n)]) (n + 1) s)
      fun _ => Tells (Addressed P request)
        (base ++ [.response (accepted request n)]) (n + 1) := by
  have hfills := fills_addressed request hticker
  rw [add_eq]
  refine Spec.bind (M := fun m s => m = n ∧ Keyed P r s ∧ s.sent = base
    ∧ s.nextMarketOrderId = n + 1) ?_ fun m => ?_
  · intro s h
    obtain ⟨hs, hsent, rfl⟩ := h
    exact ⟨rfl, ⟨hs.marked, hs.index, hs.ladder⟩, hsent, rfl⟩
  apply Spec.of_forall
  intro s h
  obtain ⟨rfl, hs, rfl, hnext⟩ := h
  refine Spec.bind (M := fun _ => Kept P r (Addressed P request)
    (s.sent ++ [.response (accepted request m)]) (m + 1)) ?_ fun _ => ?_
  · apply Spec.modify
    rintro _ rfl
    exact ⟨⟨hs.marked, hs.index, hs.ladder⟩,
      ⟨[], (List.append_nil _).symm, nofun⟩, hnext⟩
  apply Wary.bind (checkForMatch_wary hfills hself _ _)
  intro q _
  refine Spec.ite (fun _ => rest_wary hself _ _ _) fun _ => ?_
  exact Spec.pure fun s hs => ⟨r, hs⟩

theorem cancel_wary (request : MatchingEngineClientRequest) :
    Spec (Kept P r (Addressed P request) base n)
      (cancel request.clientId request.orderId request.tickerId)
      (fun _ s => ∃ r', Kept P r' (Addressed P request) base n s)
      fun _ => Tells (Addressed P request) base n := by
  have hfound : Spec (Kept P r (Addressed P request) base n)
      (findOrder request.clientId request.orderId)
      (fun p s => r.OrderPtr p p ∧ Kept P r (Addressed P request) base n s)
      fun _ => Tells (Addressed P request) base n := by
    unfold findOrder
    refine Spec.ite (fun _ => ?_) fun _ =>
      Spec.pure fun s hs => ⟨ptrCopy_none, hs⟩
    intro s hs
    simp only [EStateM.run_bind, run_assert]
    by_cases hrange : inRange request.clientId request.orderId = true
    · simp only [hrange, if_true, EStateM.run_get, EStateM.run_pure]
      exact ⟨hs.keyed.index _ _, hs⟩
    · simp only [hrange]
      exact hs.tells
  have hlast : ∀ m : MatchingEngineClientResponse, Addressed P request m →
      Spec (Kept P r (Addressed P request) base n) (sendClientResponse m)
        (fun _ s => ∃ r', Kept P r' (Addressed P request) base n s)
        fun _ => Tells (Addressed P request) base n := fun m hm =>
    Spec.mono (sendClientResponse_wary hm) (fun _ h => h)
      (fun _ _ h => ⟨r, h.2⟩) fun _ _ h => h
  unfold cancel
  apply Spec.bind hfound
  intro p s h
  obtain ⟨hp, hs⟩ := h
  refine Spec.ite (fun _ => hlast _ ?_) (fun _ => ?_) s hs
  · exact ⟨rfl, rfl, rfl⟩
  apply Wary.bind (onLadder_wary (readOrder_copy hp))
  intro o _
  apply Wary.bind (removeOrder_wary hp)
  intro _ _
  apply Wary.bind (sendMarketUpdate_wary _)
  intro _ _
  exact hlast _ ⟨rfl, rfl, rfl⟩

/-- A request on its book: the orders keep their ids, and after the answer
everything sent is addressed. -/
theorem processClientRequest_wary {request : MatchingEngineClientRequest}
    (hticker : ∀ ids, P ids → ids.tickerId = request.tickerId)
    (hself : request.type = .new →
      P ⟨request.tickerId, request.clientId, request.orderId, n⟩) :
    Spec (fun s => Keyed P r s ∧ s.sent = base ∧ s.nextMarketOrderId = n)
      (processClientRequest request)
      (fun _ s => ∃ r', Kept P r' (Addressed P request)
        (base ++ answer request n) (nextAfter request n) s)
      fun _ => Tells (Addressed P request) (base ++ answer request n)
        (nextAfter request n) := by
  have hkept : request.type ≠ .new → ∀ s, (Keyed P r s ∧ s.sent = base
      ∧ s.nextMarketOrderId = n) → Kept P r (Addressed P request)
        (base ++ answer request n) (nextAfter request n) s := by
    intro hnew s h
    obtain ⟨hs, rfl, rfl⟩ := h
    unfold answer nextAfter
    rw [if_neg hnew, if_neg hnew, List.append_nil]
    exact ⟨hs, ⟨[], (List.append_nil _).symm, nofun⟩, rfl⟩
  unfold processClientRequest
  split
  · next htype =>
    unfold answer nextAfter
    rw [if_pos htype, if_pos htype]
    exact add_wary hticker (hself htype)
  · next htype =>
    exact Spec.mono (cancel_wary request)
      (hkept (by rw [htype]; nofun)) (fun _ _ h => h) fun _ _ h => h
  · next hnew _ =>
    exact Spec.throw fun s hs => (hkept hnew s hs).tells

/-- Of the answer and what follows, everything is addressed exactly if a
NEW has one number for its client and its ticker. -/
theorem addressed_answer_iff {request : MatchingEngineClientRequest}
    {out : List Sent} (hout : ∀ m, .response m ∈ out → Addressed P request m) :
    (∀ m, .response m ∈ answer request n ++ out → Addressed P request m)
      ↔ (request.type = .new → request.clientId = request.tickerId) := by
  unfold answer
  constructor
  · intro hall hnew
    rw [if_pos hnew] at hall
    exact (hall (accepted request n) List.mem_cons_self).2.1
  · intro hsame m hm
    split at hm
    · next hnew =>
      rcases List.mem_cons.1 hm with heq | hm
      · cases heq
        exact ⟨(hsame hnew).symm, hsame hnew, rfl⟩
      · exact hout m hm
    · exact hout m hm

end MatchingEngineOrderBook

-- ================================================================== the server

namespace OrderServer

/-- The clients of all requests that were taken have sockets. -/
def Bound (s : OrderServer) : Prop :=
  ∀ q ∈ s.fifoSequencer.added, q.clientId.toNat < matchingEngineMaxNumClients
    ∧ s.cidTcpSockets q.clientId ≠ none

variable {s s' : OrderServer} {socket : SocketID} {rxTime : Nanos}

theorem bound_step {m : OrderManagementClientRequest} (h : s.Bound)
    (hrun : (onRequest socket rxTime m).run s = .ok () s') : s'.Bound := by
  have hin : (clientOf m).toNat < matchingEngineMaxNumClients := by
    by_contra hout
    have hfault : (onRequest socket rxTime m).run s
        = .error .outOfRange s := by
      have hout' : ¬ m.meClientRequest.clientId.toNat
          < matchingEngineMaxNumClients := hout
      simp [onRequest, hout']
    rw [hfault] at hrun
    cases hrun
  have hself : (s.bound socket (clientOf m)).cidTcpSockets (clientOf m)
      ≠ none := by
    unfold bound
    dsimp only
    rw [if_pos rfl]
    exact Option.some_ne_none _
  have hbound : (s.bound socket (clientOf m)).Bound := by
    intro q hq
    obtain ⟨hclient, hsome⟩ := h q hq
    refine ⟨hclient, ?_⟩
    unfold bound
    dsimp only
    split
    · exact Option.some_ne_none _
    · exact hsome
  rw [run_onRequest hin] at hrun
  split at hrun
  · split at hrun
    · cases hrun
      intro q hq
      rcases List.mem_append.1 hq with hold | hnew
      · exact hbound q hold
      · cases List.mem_singleton.1 hnew
        exact ⟨hin, hself⟩
    · cases hrun
  · cases hrun
    exact hbound

theorem bound_loop (ms : List (SocketID × OrderManagementClientRequest)) :
    ∀ {s s' : OrderServer}, s.Bound →
      (forM ms fun m => onRequest m.1 rxTime m.2).run s = .ok () s' →
      s'.Bound := by
  induction ms with
  | nil =>
      intro s s' h hrun
      cases hrun
      exact h
  | cons m ms ih =>
      intro s s' h hrun
      rw [List.forM_cons] at hrun
      obtain ⟨_, t, hfirst, hrest⟩ := run_bind_eq_ok hrun
      exact ih (bound_step h hfirst) hrest

theorem bound_of_run {es : List Event} (h : Run Served new es s) :
    s.Bound := by
  refine h.induct (I := fun _ s => s.Bound)
    (fun _ hq => absurd hq List.not_mem_nil) ?_
  intro es s e s' _ hbound hserved
  cases e with
  | receive socket rxTime chunk =>
      obtain ⟨t, ht⟩ : ∃ t, t = s.setRecvBuffer socket
          (s.recvBuffer socket ++ chunk) := ⟨_, rfl⟩
      have hcall : (recvCallBack socket rxTime).run t = .ok () s' := by
        rw [ht]
        exact hserved
      have hbefore : t.Bound := by
        rw [ht]
        exact hbound
      rw [run_recvCallBack] at hcall
      obtain ⟨_, u, hloop, hmove⟩ := run_bind_eq_ok hcall
      have hafter : u.Bound := bound_loop _ hbefore hloop
      cases hmove
      exact hafter
  | recvFinished =>
      obtain ⟨f, ⟨sorted, -, -, hf⟩, rfl⟩ := hserved
      rw [hf]
      exact hbound

end OrderServer

-- ================================================================ the exchange

open MatchingEngineOrderBook

/-- The engine, and the ids of all orders submitted to it. It may have been
stopped by an exception. -/
structure Exchange where
  engine : MatchingEngine
  submitted : List OrderIds
  stopped : Bool

namespace Exchange

def new : Exchange := ⟨.new, [], false⟩

/-- The order a request submits, under the next market order id of its
book. -/
def submission (s : MatchingEngine) (request : MatchingEngineClientRequest) :
    List OrderIds :=
  if h : request.tickerId.toNat < matchingEngineMaxTickers then
    if request.type = .new then
      [⟨request.tickerId, request.clientId, request.orderId,
        (s.tickerOrderBook ⟨request.tickerId.toNat, h⟩).nextMarketOrderId⟩]
    else []
  else []

/-- One request, worked off to its end or to an exception. -/
def take (s : Exchange) (request : MatchingEngineClientRequest) :
    Option Exchange :=
  if s.stopped then none
  else
    let submitted := s.submitted ++ submission s.engine request
    match (MatchingEngine.processClientRequest request).run s.engine with
    | .ok _ engine => some ⟨engine, submitted, false⟩
    | .error _ engine => some ⟨engine, submitted, true⟩

def Taken (s : Exchange) (request : MatchingEngineClientRequest)
    (s' : Exchange) : Prop := s.take request = some s'

/-- All responses sent in the step are addressed. -/
def Told (s : Exchange) (request : MatchingEngineClientRequest)
    (s' : Exchange) : Prop :=
  ∀ m, .response m ∈ s'.engine.sent.drop s.engine.sent.length →
    Addressed (· ∈ s'.submitted) request m

/-- A NEW for a ticker that has a book is from the client of the same
number. -/
def Aligned (request : MatchingEngineClientRequest) : Prop :=
  request.type = .new → request.tickerId.toNat < matchingEngineMaxTickers →
    request.clientId = request.tickerId

/-- The ids of the orders that the book `i` may hold. -/
def OfBook (submitted : List OrderIds) (i : Fin matchingEngineMaxTickers)
    (ids : OrderIds) : Prop :=
  ids ∈ submitted ∧ ids.tickerId.toNat = i

/-- The orders submitted to the book `i`. -/
def ordersOf (submitted : List OrderIds) (i : Fin matchingEngineMaxTickers) :
    List OrderIds :=
  submitted.filter fun ids => ids.tickerId.toNat = i

/-- Every order of a book was submitted to it, under the next number. -/
structure Inv (s : Exchange) : Prop where
  keyed : s.stopped = false → ∀ i, ∃ r, Keyed (OfBook s.submitted i) r
    (s.engine.tickerOrderBook i)
  next : s.stopped = false → ∀ i,
    (s.engine.tickerOrderBook i).nextMarketOrderId
      = 1 + UInt64.ofNat (ordersOf s.submitted i).length
  numbered : ∀ i, Numbered OrderIds.marketOrderId 1 (ordersOf s.submitted i)

variable {s s' : Exchange} {request : MatchingEngineClientRequest}
  {rs : List MatchingEngineClientRequest}

theorem submission_of_ticker {e : MatchingEngine}
    (hticker : request.tickerId.toNat < matchingEngineMaxTickers) :
    submission e request = if request.type = .new then
      [⟨request.tickerId, request.clientId, request.orderId,
        (e.tickerOrderBook ⟨_, hticker⟩).nextMarketOrderId⟩] else [] :=
  dif_pos hticker

/-- The orders of a book after a request for the book `i`. -/
theorem ordersOf_submission {e : MatchingEngine} (submitted : List OrderIds)
    {i : Fin matchingEngineMaxTickers} (hi : request.tickerId.toNat = i)
    (j : Fin matchingEngineMaxTickers) :
    ordersOf (submitted ++ submission e request) j = ordersOf submitted j
      ++ if j = i ∧ request.type = .new then [⟨request.tickerId,
        request.clientId, request.orderId,
        (e.tickerOrderBook i).nextMarketOrderId⟩] else [] := by
  have hticker : request.tickerId.toNat < matchingEngineMaxTickers := by
    rw [hi]
    exact i.isLt
  have hbook : (⟨request.tickerId.toNat, hticker⟩ : Fin _) = i := Fin.ext hi
  unfold ordersOf
  rw [List.filter_append, submission_of_ticker hticker, hbook]
  by_cases hnew : request.type = .new
  · by_cases hj : j = i
    · simp [hnew, hj, hi]
    · have hne : ¬ (i : Nat) = j := fun h => hj (Fin.ext h.symm)
      simp [hnew, hj, hi, hne]
  · simp [hnew]

/-- One request, whether or not it stops the engine. -/
theorem taken_step (h : s.Inv) (htaken : Taken s request s') :
    s'.Inv ∧ (Told s request s' ↔ Aligned request) := by
  unfold Taken take at htaken
  split at htaken
  · cases htaken
  next halive =>
  have hkeyed := h.keyed (by simpa using halive)
  have hnext := h.next (by simpa using halive)
  dsimp only at htaken
  by_cases hticker : request.tickerId.toNat < matchingEngineMaxTickers
  · obtain ⟨i, hi⟩ : ∃ i : Fin matchingEngineMaxTickers,
      i = ⟨request.tickerId.toNat, hticker⟩ := ⟨_, rfl⟩
    obtain ⟨book, hbook⟩ : ∃ book, book = s.engine.tickerOrderBook i :=
      ⟨_, rfl⟩
    obtain ⟨sub, hsub⟩ : ∃ sub, sub
      = s.submitted ++ submission s.engine request := ⟨_, rfl⟩
    have hmore : ∀ j ids, OfBook s.submitted j ids → OfBook sub j ids := by
      intro j ids hids
      rw [hsub]
      exact ⟨List.mem_append_left _ hids.1, hids.2⟩
    have hname : ∀ ids, OfBook sub i ids →
        ids.tickerId = request.tickerId := by
      intro ids hids
      apply UInt32.toNat_inj.1
      rw [hids.2, hi]
    have hself : request.type = .new → OfBook sub i ⟨request.tickerId,
        request.clientId, request.orderId, book.nextMarketOrderId⟩ := by
      intro hnew
      rw [hsub, hbook, hi]
      refine ⟨List.mem_append_right _ ?_, rfl⟩
      rw [submission_of_ticker hticker, if_pos hnew]
      exact List.mem_singleton_self _
    have horders := ordersOf_submission (e := s.engine) s.submitted
      (congrArg Fin.val hi).symm
    rw [← hsub] at horders
    have hnumbered : ∀ j, Numbered OrderIds.marketOrderId 1
        (ordersOf sub j) := by
      intro j
      rw [horders]
      split
      · next hj =>
        rw [hj.1]
        exact (h.numbered i).snoc (hnext i)
      · rw [List.append_nil]
        exact h.numbered j
    obtain ⟨r₀, hr₀⟩ := hkeyed i
    obtain ⟨r, hr⟩ := hr₀.mono (hmore i)
    have hspec := processClientRequest_wary hname hself book
      ⟨hbook ▸ hr, rfl, rfl⟩
    -- what the book's log says is what the engine sends
    have htold : ∀ b, Tells (Addressed (OfBook sub i) request)
        (book.sent ++ answer request book.nextMarketOrderId)
        (nextAfter request book.nextMarketOrderId) b →
        ∀ stopped, Told s request ⟨s.engine.setBook i b, sub, stopped⟩
          ↔ Aligned request := by
      intro b hb stopped
      obtain ⟨out, hout, hall⟩ := hb.sent
      have hsent : (s.engine.setBook i b).sent.drop s.engine.sent.length
          = answer request book.nextMarketOrderId ++ out := by
        show (s.engine.sent ++ b.sent.drop
          (s.engine.tickerOrderBook i).sent.length).drop
            s.engine.sent.length = _
        rw [List.drop_left, ← hbook, hout, List.append_assoc, List.drop_left]
      unfold Told Aligned
      rw [hsent]
      refine (addressed_answer_iff fun m hm =>
        (hall m hm).mono fun _ hids => hids.1).trans ?_
      exact ⟨fun hs hnew _ => hs hnew, fun hs hnew => hs hnew hticker⟩
    have hrun : (MatchingEngine.processClientRequest request).run s.engine
        = match (MatchingEngineOrderBook.processClientRequest request).run
            book with
          | .ok a b => .ok a (s.engine.setBook i b)
          | .error e b => .error e (s.engine.setBook i b) := by
      unfold MatchingEngine.processClientRequest MatchingEngine.onBook
      rw [dif_pos hticker, run_zoom, ← hi, hbook]
      cases (MatchingEngineOrderBook.processClientRequest request).run
        (s.engine.tickerOrderBook i) <;> rfl
    rw [hrun, ← hsub] at htaken
    cases hown : (MatchingEngineOrderBook.processClientRequest request).run
        book with
    | ok _ b =>
        rw [hown] at htaken hspec
        cases htaken
        obtain ⟨r', hr'⟩ := hspec
        refine ⟨⟨fun _ j => ?_, fun _ j => ?_, hnumbered⟩,
          htold b hr'.tells false⟩
        · show ∃ r, Keyed (OfBook sub j) r
            (if j = i then b else s.engine.tickerOrderBook j)
          split
          · next hj =>
            rw [hj]
            exact ⟨r', hr'.keyed⟩
          · obtain ⟨r, hr⟩ := hkeyed j
            exact hr.mono (hmore j)
        · show (if j = i then b
            else s.engine.tickerOrderBook j).nextMarketOrderId = _
          rw [horders]
          by_cases hj : j = i
          · rw [if_pos hj, hr'.tells.next, hbook, hnext, hj]
            unfold nextAfter
            by_cases hnew : request.type = .new
            · rw [if_pos hnew, if_pos ⟨rfl, hnew⟩, List.length_append,
                UInt64.ofNat_add, ← UInt64.add_assoc]
              rfl
            · rw [if_neg hnew, if_neg fun hboth => hnew hboth.2,
                List.append_nil]
          · rw [if_neg hj, if_neg fun hboth => hj hboth.1, List.append_nil]
            exact hnext j
    | error e b =>
        rw [hown] at htaken hspec
        cases htaken
        exact ⟨⟨nofun, nofun, hnumbered⟩, htold b hspec true⟩
  · have hrun : (MatchingEngine.processClientRequest request).run s.engine
        = .error .outOfRange s.engine := by
      unfold MatchingEngine.processClientRequest
      rw [dif_neg hticker]
      rfl
    have hnone : submission s.engine request = [] := dif_neg hticker
    rw [hrun, hnone, List.append_nil] at htaken
    cases htaken
    refine ⟨⟨nofun, nofun, h.numbered⟩, iff_of_true (fun m hm => ?_)
      fun _ hin => (hticker hin).elim⟩
    rw [List.drop_length] at hm
    cases hm

theorem inv_of_run (h : Run Taken new rs s) : s.Inv :=
  h.induct (I := fun _ s => s.Inv)
    ⟨fun _ _ => keyed_new, fun _ _ => rfl, fun _ => trivial⟩
    fun _ _ _ _ _ hs htaken => (taken_step hs htaken).1

/-- What was submitted is what was requested. -/
theorem requested_of_run (h : Run Taken new rs s) {ids : OrderIds}
    (hids : ids ∈ s.submitted) : ∃ q ∈ rs, q.type = .new
      ∧ q.tickerId.toNat < matchingEngineMaxTickers
      ∧ q.tickerId = ids.tickerId ∧ q.clientId = ids.clientId
      ∧ q.orderId = ids.clientOrderId := by
  induction h with
  | nil => cases hids
  | @snoc rs s q s' hrun htaken ih =>
    have hsubmitted : s'.submitted = s.submitted ++ submission s.engine q := by
      unfold Taken take at htaken
      split at htaken
      · cases htaken
      · dsimp only at htaken
        split at htaken <;> cases htaken <;> rfl
    rw [hsubmitted] at hids
    rcases List.mem_append.1 hids with hold | hnew
    · obtain ⟨q', hq', hrest⟩ := ih hold
      exact ⟨q', List.mem_append_left _ hq', hrest⟩
    · refine ⟨q, List.mem_append_right _ (List.mem_singleton_self q), ?_⟩
      unfold submission at hnew
      split at hnew
      · next hticker =>
        split at hnew
        · next htype =>
          cases List.mem_singleton.1 hnew
          exact ⟨htype, hticker, rfl, rfl, rfl⟩
        · cases hnew
      · cases hnew

theorem taken_sent (htaken : Taken s request s') :
    ∃ out, s'.engine.sent = s.engine.sent ++ out := by
  unfold Taken take at htaken
  split at htaken
  · cases htaken
  dsimp only at htaken
  unfold MatchingEngine.processClientRequest at htaken
  by_cases hticker : request.tickerId.toNat < matchingEngineMaxTickers
  · unfold MatchingEngine.onBook at htaken
    rw [dif_pos hticker, run_zoom] at htaken
    cases hown : (MatchingEngineOrderBook.processClientRequest request).run
        (s.engine.tickerOrderBook ⟨request.tickerId.toNat, hticker⟩) with
    | ok _ b =>
        rw [hown] at htaken
        cases htaken
        exact ⟨_, rfl⟩
    | error e b =>
        rw [hown] at htaken
        cases htaken
        exact ⟨_, rfl⟩
  · rw [dif_neg hticker] at htaken
    cases htaken
    exact ⟨[], (List.append_nil _).symm⟩

/-- The client that gets the response has sent a request for this ticker
and order id, and it was a NEW if the response is a FILLED. -/
def Owed (rs : List MatchingEngineClientRequest)
    (m : MatchingEngineClientResponse) : Prop :=
  ∃ q ∈ rs, q.clientId = m.clientId ∧ q.tickerId = m.tickerId
    ∧ q.orderId = m.clientOrderId ∧ (m.type = .filled → q.type = .new)

/-- All responses of a run of aligned requests. -/
theorem owed_of_run (h : Run Taken new rs s) (haligned : ∀ q ∈ rs, Aligned q)
    {m : MatchingEngineClientResponse} (hm : .response m ∈ s.engine.sent) :
    Owed rs m := by
  induction h with
  | nil => cases hm
  | @snoc rs s q s' hrun htaken ih =>
    obtain ⟨out, hout⟩ := taken_sent htaken
    rw [hout] at hm
    rcases List.mem_append.1 hm with hold | hnew
    · obtain ⟨q', hq', hrest⟩ := ih
        (fun q' hq' => haligned q' (List.mem_append_left _ hq')) hold
      exact ⟨q', List.mem_append_left _ hq', hrest⟩
    · have hlast := List.mem_append_right rs (List.mem_singleton_self q)
      have htold := (taken_step (inv_of_run hrun) htaken).2.2
        (haligned q hlast) m
      rw [hout, List.drop_left] at htold
      have haddressed := htold hnew
      unfold Addressed at haddressed
      split at haddressed
      · obtain ⟨hticker, hids⟩ := haddressed
        obtain ⟨q', hq', htype, -, hticker', hclient, horder⟩ :=
          requested_of_run (hrun.snoc htaken) hids
        exact ⟨q', hq', hclient, hticker'.trans hticker.symm, horder,
          fun _ => htype⟩
      · next htype =>
        exact ⟨q, hlast, haddressed.1.symm, haddressed.2.1.symm,
          haddressed.2.2.symm, fun hfilled => (htype hfilled).elim⟩

/-- No two orders of one ticker are submitted under one market order id
before the ids wrap around. -/
theorem submitted_unique (h : Run Taken new rs s)
    (hlen : s.submitted.length ≤ 2 ^ 64) {ids ids' : OrderIds}
    (hids : ids ∈ s.submitted) (hids' : ids' ∈ s.submitted)
    (hticker : ids.tickerId = ids'.tickerId)
    (hmarket : ids.marketOrderId = ids'.marketOrderId) : ids = ids' := by
  obtain ⟨q, -, -, hrange, hq, -⟩ := requested_of_run h hids
  have hin : ids.tickerId.toNat < matchingEngineMaxTickers := by
    rw [← hq]
    exact hrange
  have hof : ∀ x ∈ s.submitted, x.tickerId = ids.tickerId →
      x ∈ ordersOf s.submitted ⟨ids.tickerId.toNat, hin⟩ := fun x hx heq =>
    List.mem_filter.2 ⟨hx, decide_eq_true (congrArg UInt32.toNat heq)⟩
  have hle := List.length_filter_le (fun x : OrderIds => decide
    (x.tickerId.toNat = (⟨ids.tickerId.toNat, hin⟩ : Fin _))) s.submitted
  exact ((inv_of_run h).numbered ⟨ids.tickerId.toNat, hin⟩).unique
    (hle.trans hlen) (hof ids hids rfl) (hof ids' hids' hticker.symm) hmarket

/-- Everything a run sends is addressed exactly if all its requests are
aligned. Then the clients of all responses have asked for them, and the
server, which has taken the requests, has a socket for each. -/
theorem addressed_iff_aligned (h : Run Taken new rs s) :
    ((∀ rs' q t t', rs' ++ [q] <+: rs → Run Taken new rs' t →
        Taken t q t' → Told t q t') ↔ ∀ q ∈ rs, Aligned q)
      ∧ ((∀ q ∈ rs, Aligned q) →
        (∀ m, .response m ∈ s.engine.sent → Owed rs m)
        ∧ ∀ es server, Run OrderServer.Served OrderServer.new es server →
          (∀ q ∈ rs, q ∈ server.fifoSequencer.added) →
          ∀ ms : List MatchingEngineClientResponse,
            (∀ m ∈ ms, .response m ∈ s.engine.sent) →
            ∃ server', (forM ms OrderServer.respond).run server
              = .ok () server')
      ∧ (s.submitted.length ≤ 2 ^ 64 → ∀ ids ∈ s.submitted,
        ∀ ids' ∈ s.submitted, ids.tickerId = ids'.tickerId →
          ids.marketOrderId = ids'.marketOrderId → ids = ids') := by
  refine ⟨?_, fun haligned => ⟨fun m hm => owed_of_run h haligned hm, ?_⟩,
    fun hlen ids hids ids' hids' => submitted_unique h hlen hids hids'⟩
  · have heach := h.each_iff (P := Told) (C := fun _ q => Aligned q)
      (fun s q t t' ht ht' => Option.some.inj (ht.symm.trans ht'))
      fun rs s q s' hrun htaken => (taken_step (inv_of_run hrun) htaken).2
    exact heach.trans h.and_iff
  · intro es server hserver htaken ms hms
    have hbound := OrderServer.bound_of_run hserver
    obtain ⟨server', hrun, -⟩ := OrderServer.run_responses ms server
      fun m hm => by
        obtain ⟨q, hq, hclient, -⟩ := owed_of_run h haligned (hms m hm)
        rw [← hclient]
        exact hbound q (htaken q hq)
    exact ⟨server', hrun⟩

/-- The client 1 buys of the ticker 1. -/
def alignedNew : MatchingEngineClientRequest :=
  ⟨.new, 1, 1, 5, .buy, 100, 10⟩

/-- The client 1 buys of the ticker 0. -/
def crossedNew : MatchingEngineClientRequest :=
  ⟨.new, 1, 0, 5, .buy, 100, 10⟩

theorem exists_taken (halive : s.stopped = false)
    (request : MatchingEngineClientRequest) : ∃ s', Taken s request s' := by
  unfold Taken take
  rw [halive]
  dsimp only
  cases (MatchingEngine.processClientRequest request).run s.engine with
  | ok _ e => exact ⟨_, rfl⟩
  | error _ e => exact ⟨_, rfl⟩

theorem addressed_alignedNew : ∃ s, Run Taken new [alignedNew] s
    ∧ ∀ m, .response m ∈ s.engine.sent → Owed [alignedNew] m := by
  obtain ⟨s, hs⟩ := exists_taken (s := new) rfl alignedNew
  have hrun : Run Taken new [alignedNew] s := Run.nil.snoc hs
  refine ⟨s, hrun, ((addressed_iff_aligned hrun).2.1 ?_).1⟩
  intro q hq _ _
  cases List.mem_singleton.1 hq
  rfl

theorem not_addressed_crossedNew :
    ¬ ∀ (rs : List MatchingEngineClientRequest) (s : Exchange),
      (∀ q ∈ rs, q.clientId.toNat < matchingEngineMaxNumClients
        ∧ q.tickerId.toNat < matchingEngineMaxTickers
        ∧ q.orderId.toNat < matchingEngineMaxOrderIds) →
      Run Taken new rs s →
      ∀ rs' q t t', rs' ++ [q] <+: rs → Run Taken new rs' t →
        Taken t q t' → Told t q t' := by
  intro hall
  obtain ⟨s, hs⟩ := exists_taken (s := new) rfl crossedNew
  have hin : ∀ q ∈ [crossedNew],
      q.clientId.toNat < matchingEngineMaxNumClients
        ∧ q.tickerId.toNat < matchingEngineMaxTickers
        ∧ q.orderId.toNat < matchingEngineMaxOrderIds := by
    intro q hq
    cases List.mem_singleton.1 hq
    decide
  have htold := hall [crossedNew] s hin (Run.nil.snoc hs) [] crossedNew new s
    (List.prefix_refl _) .nil hs
  have haligned := (taken_step (inv_of_run .nil) hs).2.1 htold
  have hsame := haligned rfl (by decide)
  cases hsame

end Exchange

end ElectronicTrading
