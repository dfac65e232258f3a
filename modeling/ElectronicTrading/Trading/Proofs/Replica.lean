/-
The market book is a replica of the exchange's: after every request of a
clean run, the updates sent so far make the same levels and queues of a
new market book, and none of its assertions fails on the way.

The two books are compared through the lists of their orders, of which
the market book knows the market order id only (`toMarket`). The lists
stay equal from update to update: inside a sweep each update is about
the first order of the opposite list (`replay_sweep`, by induction on
that list), and an ADD puts its order where the exchange put it
(`replay_new`).

Neither book can lack room where the other has it. The market book's
index is what limits the run: market order ids are its indices, so it
takes fewer than 2^20 NEW requests.
-/
import ElectronicTrading.Exchange.Proofs.Conservation
import ElectronicTrading.Trading.Proofs.Mirror

namespace ElectronicTrading

open PriceTime Runs Reference

/-- The market updates among what was sent. -/
def updatesOf (sent : List Sent) : List MatchingEngineMarketUpdate :=
  sent.filterMap fun
    | .response _ => none
    | .update update => some update

@[simp] theorem updatesOf_append (sent sent' : List Sent) :
    updatesOf (sent ++ sent') = updatesOf sent ++ updatesOf sent' :=
  List.filterMap_append

/-- The updates of a sweep are those of its fills. -/
theorem updatesOf_sweepMessages (i : Incoming) (ts : List (Trade OrderIds))
    (leaves : Quantity) :
    updatesOf (i.sweepMessages leaves ts) = ts.map i.fillUpdate := by
  induction ts generalizing leaves with
  | nil => rfl
  | cons t ts ih =>
      rw [Incoming.sweepMessages, updatesOf_append, ih]
      rfl

/-- The updates of a NEW order: its fills', and the ADD of what is left. -/
theorem updatesOf_messages (i : Incoming) (book : Reference.Book) :
    updatesOf (i.messages book) = (i.swept book).trades.map i.fillUpdate
      ++ if (i.swept book).left = 0 then []
        else [i.addUpdate (i.remainder book)] := by
  unfold Incoming.messages
  rw [List.cons_append]
  show updatesOf (_ ++ _) = _
  rw [updatesOf_append, updatesOf_sweepMessages]
  split <;> rfl

/-- An order of the exchange's book as the market book holds it. -/
abbrev toMarket : Resting OrderIds → Resting OrderID :=
  Resting.mapKey (·.marketOrderId)

/-- A level of the exchange's book as the market book holds it. -/
def LevelView.toMarket (v : LevelView OrderIds) : LevelView OrderID where
  side := v.side
  price := v.price
  orders := v.orders.map ElectronicTrading.toMarket

/-- A side's price levels, both sides together. -/
def levelCount (book : Reference.Book) : Nat :=
  (levelsOf (book true)).length + (levelsOf (book false)).length

namespace MarketOrderBook

-- ========================================================== lists of updates

theorem run_onMarketUpdates_append (us us' : List MatchingEngineMarketUpdate)
    (m : MarketOrderBook) : (onMarketUpdates (us ++ us')).run m
      = match (onMarketUpdates us).run m with
        | .ok () m' => (onMarketUpdates us').run m'
        | .error e m' => .error e m' := by
  induction us generalizing m with
  | nil => rfl
  | cons u us ih =>
      rw [List.cons_append, onMarketUpdates, onMarketUpdates,
        EStateM.run_bind, EStateM.run_bind]
      cases (onMarketUpdate u).run m with
      | ok notice m' => exact ih m'
      | error e m' => rfl

/-- The market book holds the lists `book`. -/
structure Holds (m : MarketOrderBook) (lay : Layout)
    (book : Bool → List (Resting OrderID)) : Prop where
  mirror : Mirror m lay
  book : ∀ c, m.book c = book c

/-- From one market book that holds `book` the updates lead to one that
holds `book'`. -/
def Leads (us : List MatchingEngineMarketUpdate)
    (book book' : Bool → List (Resting OrderID)) : Prop :=
  ∀ m lay, Holds m lay book →
    ∃ m' lay', (onMarketUpdates us).run m = .ok () m' ∧ Holds m' lay' book'

theorem Leads.refl (book : Bool → List (Resting OrderID)) :
    Leads [] book book := fun m lay h => ⟨m, lay, rfl, h⟩

theorem Leads.append {us us' : List MatchingEngineMarketUpdate}
    {book book' book'' : Bool → List (Resting OrderID)}
    (h : Leads us book book') (h' : Leads us' book' book'') :
    Leads (us ++ us') book book'' := by
  intro m lay hm
  obtain ⟨m₁, lay₁, hrun, hm₁⟩ := h m lay hm
  obtain ⟨m₂, lay₂, hrun', hm₂⟩ := h' m₁ lay₁ hm₁
  refine ⟨m₂, lay₂, ?_, hm₂⟩
  rw [run_onMarketUpdates_append, hrun]
  exact hrun'

/-- One update that its case handles. -/
theorem leads_one {u : MatchingEngineMarketUpdate}
    {book book' : Bool → List (Resting OrderID)} (htype : u.type ≠ .trade)
    (h : ∀ m lay, Holds m lay book →
      ∃ m' lay', (dispatch u).run m = .ok () m' ∧ Holds m' lay' book') :
    Leads [u] book book' := by
  intro m lay hm
  obtain ⟨m', lay', hrun, hm'⟩ := h m lay hm
  obtain ⟨notice, bbo, hupdate, -⟩ :=
    onMarketUpdate_spec hm.mirror htype hrun hm'.mirror
  refine ⟨{ m' with bbo := bbo }, lay', ?_,
    ⟨hm'.mirror.withBBO bbo, hm'.book⟩⟩
  unfold onMarketUpdates
  rw [Exec.run_bind_ok hupdate]
  rfl

-- =============================================================== one update

/-- A side's list replaced. -/
def setSide (book : Bool → List (Resting OrderID)) (b : Bool)
    (l : List (Resting OrderID)) : Bool → List (Resting OrderID) :=
  fun c => if c = b then l else book c

theorem setSide_setSide (book : Bool → List (Resting OrderID)) (b : Bool)
    (l l' : List (Resting OrderID)) :
    setSide (setSide book b l) b l' = setSide book b l' := by
  funext c
  unfold setSide
  split <;> rfl

theorem setSide_self (book : Bool → List (Resting OrderID)) (b : Bool) :
    setSide book b (book b) = book := by
  funext c
  unfold setSide
  split
  · next hc => rw [hc]
  · rfl

/-- What an update of the exchange's says: which lists it can be about, and
what becomes of them. New orders have larger ids than all there are. -/
inductive Change (u : MatchingEngineMarketUpdate)
    (book : Bool → List (Resting OrderID)) :
    (Bool → List (Resting OrderID)) → Prop
  | add (b : Bool) (htype : u.type = .add) (hside : u.side = sideOf b)
      (hrange : InRange u.orderId)
      (hlater : ∀ c, ∀ x ∈ book c, x.key < u.orderId)
      (hfree : ∀ c, ∀ x ∈ book c,
        priceToIndex x.price = priceToIndex u.price →
          c = b ∧ x.price = u.price)
      (hroom : ¬ Ladder.Full book u.price) :
      Change u book (setSide book b (place b (added u) (book b)))
  | modify (b : Bool) (x : Resting OrderID) (l m : List (Resting OrderID))
      (htype : u.type = .modify) (hkey : x.key = u.orderId)
      (hside : u.side = x.side) (hprice : u.price = x.price)
      (hbook : book b = l ++ x :: m) :
      Change u book
        (setSide book b (l ++ { x with quantity := u.quantity } :: m))
  | cancel (b : Bool) (x : Resting OrderID) (l m : List (Resting OrderID))
      (htype : u.type = .cancel) (hkey : x.key = u.orderId)
      (hside : u.side = x.side) (hbook : book b = l ++ x :: m) :
      Change u book (setSide book b (l ++ m))

/-- One update after the other. -/
abbrev Changes (us : List MatchingEngineMarketUpdate)
    (book book' : Bool → List (Resting OrderID)) : Prop :=
  Run (fun book u book' => Change u book book') book us book'

theorem Change.changes {u : MatchingEngineMarketUpdate}
    {book book' : Bool → List (Resting OrderID)} (h : Change u book book') :
    Changes [u] book book' := Run.nil.snoc h

/-- A market book follows. -/
theorem Change.leads {u : MatchingEngineMarketUpdate}
    {book book' : Bool → List (Resting OrderID)} (h : Change u book book') :
    Leads [u] book book' := by
  cases h with
  | add b htype hside hrange hlater hfree hroom =>
      refine leads_one (by rw [htype]; decide) fun m lay hm => ?_
      have hbook : m.book = book := funext hm.book
      obtain ⟨m', lay', hrun, hmirror, hbook'⟩ := onAdd_spec hm.mirror hside
        hrange (fun c x hx => by
          rw [hbook] at hx
          exact UInt64.ne_of_lt (hlater c x hx))
        (by rw [hbook]; exact hfree) (by rw [hbook]; exact hroom)
      refine ⟨m', lay', ?_, hmirror, fun c => ?_⟩
      · unfold dispatch
        rw [htype]
        exact hrun
      · rw [hbook', hbook]
        rfl
  | modify b x l r htype hkey hside hprice hbook =>
      refine leads_one (by rw [htype]; decide) fun m lay hm => ?_
      obtain ⟨m', hrun, hmirror, hbook'⟩ :=
        onModify_spec u hm.mirror ((hm.book b).trans hbook) hkey
      refine ⟨m', lay, ?_, hmirror, fun c => ?_⟩
      · unfold dispatch
        rw [htype]
        exact hrun
      · rw [hbook', hm.book]
        rfl
  | cancel b x l r htype hkey hside hbook =>
      refine leads_one (by rw [htype]; decide) fun m lay hm => ?_
      obtain ⟨m', lay', hrun, hmirror, hbook'⟩ :=
        onCancel_spec u hm.mirror ((hm.book b).trans hbook) hkey
      refine ⟨m', lay', ?_, hmirror, fun c => ?_⟩
      · unfold dispatch
        rw [htype]
        exact hrun
      · rw [hbook', hm.book]
        rfl

theorem Changes.leads {us : List MatchingEngineMarketUpdate}
    {book book' : Bool → List (Resting OrderID)} (h : Changes us book book') :
    Leads us book book' :=
  h.induct (I := fun us book' => Leads us book book') (Leads.refl book)
    fun _ _ _ _ _ ih hchange => ih.append (Change.leads hchange)

-- ================================================================ one sweep

/-- A fill's update does to the first order of the list what the fill
did. -/
theorem change_fill (i : Incoming) (book : Bool → List (Resting OrderID))
    (r : Resting OrderIds) (fill : Quantity) (l : List (Resting OrderID)) :
    Change (i.fillUpdate ⟨r, fill⟩) (setSide book (!i.isBuy) (toMarket r :: l))
      (setSide book (!i.isBuy)
        (if r.quantity - fill = 0 then l
          else toMarket { r with quantity := r.quantity - fill } :: l)) := by
  obtain ⟨u, hu⟩ : ∃ u, u = i.fillUpdate ⟨r, fill⟩ := ⟨_, rfl⟩
  have hhead : setSide book (!i.isBuy) (toMarket r :: l) (!i.isBuy)
      = [] ++ toMarket r :: l := if_pos rfl
  rw [← hu]
  unfold Incoming.fillUpdate at hu
  by_cases hzero : r.quantity - fill = 0
  · rw [if_pos hzero] at hu ⊢
    have hchange := Change.cancel (u := u) (!i.isBuy) (toMarket r) [] l
      (by rw [hu]) (by rw [hu]; rfl) (by rw [hu]; rfl) hhead
    rwa [setSide_setSide] at hchange
  · rw [if_neg hzero] at hu ⊢
    have hchange := Change.modify (u := u) (!i.isBuy) (toMarket r) [] l
      (by rw [hu]) (by rw [hu]; rfl) (by rw [hu]; rfl) (by rw [hu]; rfl) hhead
    rw [setSide_setSide, hu] at hchange
    rw [hu]
    exact hchange

/-- The updates of a sweep replay it on the opposite list. -/
theorem replay_sweep (i : Incoming) (book : Bool → List (Resting OrderID))
    (l : List (Resting OrderIds)) : ∀ leaves : Quantity,
    Changes (updatesOf (i.sweepMessages leaves
        (sweep i.isBuy i.price leaves l).trades))
      (setSide book (!i.isBuy) (l.map toMarket))
      (setSide book (!i.isBuy)
        ((sweep i.isBuy i.price leaves l).rest.map toMarket)) := by
  induction l with
  | nil =>
      intro leaves
      exact .nil
  | cons r rest ih =>
      intro leaves
      rw [sweep]
      by_cases hdone : leaves = 0 ∨ crosses i.isBuy i.price r = false
      · rw [if_pos hdone]
        exact .nil
      · rw [if_neg hdone]
        have hfill := (change_fill i book r (min r.quantity leaves)
          (rest.map toMarket)).changes
        by_cases hzero : r.quantity - min r.quantity leaves = 0
        · simp only [hzero, if_true] at hfill ⊢
          exact hfill.append (ih (leaves - min r.quantity leaves))
        · simp only [hzero, if_false] at hfill ⊢
          exact hfill

-- ============================================================== a NEW order

/-- A book's lists as the market book holds them. -/
def listsOf (book : Reference.Book) : Bool → List (Resting OrderID) :=
  fun c => (book c).map toMarket

theorem levelCount_listsOf (book : Reference.Book) :
    (levelsOf (listsOf book true)).length
        + (levelsOf (listsOf book false)).length = levelCount book := by
  unfold listsOf levelCount toMarket
  rw [levelsOf_mapKey, levelsOf_mapKey, List.length_map, List.length_map]

theorem listsOf_sweptBook (i : Incoming) (book : Reference.Book) :
    listsOf (i.sweptBook book) = setSide (listsOf book) (!i.isBuy)
      ((i.swept book).rest.map toMarket) := by
  funext c
  unfold listsOf setSide Incoming.sweptBook
  rcases i.isBuy_or c with hc | hc
  · have hne : c ≠ !i.isBuy := by
      rw [hc]
      cases i.isBuy <;> decide
    rw [if_pos hc, if_neg hne]
  · have hne : c ≠ i.isBuy := by
      rw [hc]
      cases i.isBuy <;> decide
    rw [if_neg hne, if_pos hc]

/-- A book with room for the NEW order's outcome: the lengths of its lists
after it are those of a booked ladder. -/
structure Fits (book : Reference.Book) : Prop where
  orders : (book true).length + (book false).length + 1
    ≤ matchingEngineMaxOrderIds
  levels : levelCount book + 1 ≤ matchingEngineMaxPriceLevels

/-- The remainder of a NEW order has room where its outcome has. -/
theorem not_full_of_fits {i : Incoming} {book : Reference.Book} (hok : Ok book)
    (hleft : (i.swept book).left ≠ 0) (hfits : Fits (i.apply book)) :
    ¬ Ladder.Full (i.sweptBook book) i.price := by
  have hswept := Incoming.ok_sweptBook (i := i) hok
  have hown : i.apply book i.isBuy
      = place i.isBuy (i.remainder book) (i.sweptBook book i.isBuy) := by
    rw [Incoming.apply_own hleft, Incoming.sweptBook_own]
  have hopp : i.apply book (!i.isBuy) = i.sweptBook book (!i.isBuy) := by
    rw [Incoming.apply_opposite, Incoming.sweptBook_opposite]
  have hlen : (i.apply book i.isBuy).length
      = (i.sweptBook book i.isBuy).length + 1 := by
    rw [hown]
    exact List.orderedInsert_length _ _ _
  have hsides : ∀ f : Bool → Nat,
      f true + f false = f i.isBuy + f (!i.isBuy) := fun f => by
    cases i.isBuy
    · exact Nat.add_comm _ _
    · rfl
  have horders := hfits.orders
  have hlevels := hfits.levels
  unfold levelCount at hlevels
  rw [hsides fun c => (i.apply book c).length, hlen, hopp] at horders
  rw [hsides fun c => (levelsOf (i.apply book c)).length, hopp, hown] at hlevels
  intro h
  rcases h with hfull | ⟨hfull, hnew⟩
  · rw [hsides fun c => (i.sweptBook book c).length] at hfull
    omega
  · rw [hsides fun c => (levelsOf (i.sweptBook book c)).length] at hfull
    rw [levelsOf_place (hswept.sorted _)
      fun q hq => hnew i.isBuy q hq] at hlevels
    omega

/-- The updates of a NEW order lead from the lists before it to those
after it. -/
theorem replay_new {i : Incoming} {book : Reference.Book} (hok : Ok book)
    (hfree : (i.swept book).left ≠ 0 → SlotFree (i.sweptBook book) i.price)
    (hid : InRange i.ids.marketOrderId)
    (hlater : ∀ c, ∀ r ∈ book c, r.key.marketOrderId < i.ids.marketOrderId)
    (hfits : Fits (i.apply book)) :
    Changes (updatesOf (i.messages book)) (listsOf book)
      (listsOf (i.apply book)) := by
  have hsweep := replay_sweep i (listsOf book) (book !i.isBuy) i.quantity
  rw [updatesOf_sweepMessages] at hsweep
  change Changes _ (setSide (listsOf book) (!i.isBuy) (listsOf book !i.isBuy))
    (setSide (listsOf book) (!i.isBuy)
      ((i.swept book).rest.map toMarket)) at hsweep
  rw [setSide_self, ← listsOf_sweptBook] at hsweep
  rw [updatesOf_messages]
  by_cases hleft : (i.swept book).left = 0
  · rw [if_pos hleft, List.append_nil, Incoming.apply_spent hleft]
    exact hsweep
  · rw [if_neg hleft]
    have hswept := Incoming.ok_sweptBook (i := i) hok
    -- the order's slot, id and room
    have hslot : ∀ c, ∀ x ∈ listsOf (i.sweptBook book) c,
        priceToIndex x.price = priceToIndex i.price →
          c = i.isBuy ∧ x.price = i.price := by
      intro c x hx hidx
      obtain ⟨r, hr, rfl⟩ := List.mem_map.1 hx
      have hprice := hfree hleft c r hr hidx
      refine ⟨?_, hprice⟩
      rcases i.isBuy_or c with hc | hc
      · exact hc
      · rw [hc] at hr
        have hbeyond := Incoming.beyond_limit hok hleft hr
        rw [hprice] at hbeyond
        split at hbeyond <;> exact absurd hbeyond (Int.lt_irrefl _)
    have hafter : ∀ c, ∀ x ∈ listsOf (i.sweptBook book) c,
        x.key < i.ids.marketOrderId := by
      intro c x hx
      obtain ⟨r, hr, rfl⟩ := List.mem_map.1 hx
      obtain ⟨r', hr', hcore⟩ := Incoming.exists_core hr
      show r.key.marketOrderId < _
      rw [← (core_eq hcore).1]
      exact hlater c r' hr'
    have hroom : ¬ Ladder.Full (listsOf (i.sweptBook book)) i.price := by
      have hfull := not_full_of_fits hok hleft hfits
      intro h
      rcases h with h | ⟨h, hprices⟩
      · refine hfull (Or.inl ?_)
        unfold listsOf at h
        rwa [List.length_map, List.length_map] at h
      · refine hfull (Or.inr ⟨?_, fun c r hr => ?_⟩)
        · rw [levelCount_listsOf] at h
          exact h
        · exact hprices c (toMarket r) (List.mem_map_of_mem hr)
    have hadd := Change.add (u := i.addUpdate (i.remainder book)) i.isBuy rfl
      rfl hid hafter hslot hroom
    have hend : setSide (listsOf (i.sweptBook book)) i.isBuy
        (place i.isBuy (added (i.addUpdate (i.remainder book)))
          (listsOf (i.sweptBook book) i.isBuy)) = listsOf (i.apply book) := by
      funext c
      unfold setSide listsOf Incoming.apply
      by_cases hc : c = i.isBuy
      · rw [if_pos hc, if_pos ⟨hc, hleft⟩, hc, Incoming.sweptBook_own]
        have hplace := place_mapKey (fun ids : OrderIds => ids.marketOrderId)
          (hok.sorted i.isBuy) (i.remainder book)
        exact hplace
      · rw [if_neg hc, if_neg fun h => hc h.1]
    rw [hend] at hadd
    exact hsweep.append hadd.changes

/-- A CANCEL's update takes out the order that the exchange took out. -/
theorem replay_cancel {book book' : Reference.Book} {b : Bool}
    {x : Resting OrderIds} {l r : List (Resting OrderIds)}
    (tickerId : TickerID) (hbefore : book b = l ++ x :: r)
    (hafter : book' b = l ++ r) (hother : ∀ c, c ≠ b → book' c = book c) :
    Change (cancelUpdate tickerId x) (listsOf book) (listsOf book') := by
  have hbook : listsOf book b = l.map toMarket ++ toMarket x
      :: r.map toMarket := by
    unfold listsOf
    rw [hbefore, List.map_append, List.map_cons]
  have hchange := Change.cancel (u := cancelUpdate tickerId x) b _ _ _ rfl rfl
    rfl hbook
  have hend : setSide (listsOf book) b (l.map toMarket ++ r.map toMarket)
      = listsOf book' := by
    funext c
    unfold setSide listsOf
    split
    · next hc => rw [hc, hafter, List.map_append]
    · next hc => rw [hother c hc]
  rwa [hend] at hchange

end MarketOrderBook

namespace MatchingEngineOrderBook

open MarketOrderBook (Leads Holds Fits listsOf Changes)

/-- What is told of a NEW order is about its ticker. -/
theorem messages_ticker (i : Incoming) (book : Reference.Book) :
    ∀ u ∈ updatesOf (i.messages book), u.tickerId = i.ids.tickerId := by
  intro u hu
  rw [updatesOf_messages] at hu
  rcases List.mem_append.1 hu with hfill | hadd
  · obtain ⟨t, -, rfl⟩ := List.mem_map.1 hfill
    unfold Incoming.fillUpdate
    split <;> rfl
  · split at hadd
    · cases hadd
    · cases List.mem_singleton.1 hadd
      rfl

/-- The ADDs of a list of updates. -/
def adds (us : List MatchingEngineMarketUpdate) : Nat :=
  us.countP (·.type = .add)

/-- A NEW order is added at most once. -/
theorem adds_messages_le (i : Incoming) (book : Reference.Book) :
    adds (updatesOf (i.messages book)) ≤ 1 := by
  have hfills : ((i.swept book).trades.map i.fillUpdate).countP
      (·.type = .add) = 0 := by
    rw [List.countP_eq_zero]
    intro u hu
    obtain ⟨t, -, rfl⟩ := List.mem_map.1 hu
    unfold Incoming.fillUpdate
    split
    · simp
    · simp
  unfold adds
  rw [updatesOf_messages, List.countP_append, hfills, Nat.zero_add]
  split
  · exact Nat.zero_le 1
  · exact List.countP_le_length

-- ==================================================================== runs

theorem fits_of_booked {s : MatchingEngineOrderBook} {lay : Layout}
    (h : Stored s lay) : Fits s.book := by
  obtain ⟨horders, hlevels⟩ := h.booked.lengths
  exact ⟨horders, hlevels⟩

/-- The updates of a clean step lead from the lists before it to those
after it. They are about the request's ticker. -/
theorem changes_of_cleanStep {rs : List MatchingEngineClientRequest}
    {s s' : MatchingEngineOrderBook} {r : MatchingEngineClientRequest}
    (hrun : Run CleanStep new rs s) (hstep : CleanStep s r s')
    (hcount : (submitted (rs ++ [r])).length < matchingEngineMaxOrderIds) :
    ∃ out, s'.sent = s.sent ++ out
      ∧ Changes (updatesOf out) (listsOf s.book) (listsOf s'.book)
      ∧ (∀ u ∈ updatesOf out, u.tickerId = r.tickerId)
      ∧ adds (updatesOf out) ≤ (submitted [r]).length := by
  obtain ⟨lay, hgood⟩ := good_of_cleanRun hrun
  obtain ⟨lay', hgood'⟩ := good_of_cleanRun (hrun.snoc hstep)
  have hfree := hstep.free hgood.stored
  rcases step_cases hgood.stored hstep.valid hstep.processed hfree with
    ⟨hnew, lay₁, hafter⟩ | ⟨-, -, rfl⟩ | ⟨-, -, lay₁, b, x, hafter⟩
  · obtain ⟨hnext, hledger⟩ := ledger_of_cleanRun hrun
    have hbound : matchingEngineMaxOrderIds < 2 ^ 63 := by decide
    rw [submitted_snoc, if_pos hnew, List.length_append,
      List.length_singleton] at hcount
    have hnumber : ∀ k ≤ (submitted rs).length,
        (orderIdOf k).toNat = k + 1 := by
      intro k hk
      unfold orderIdOf
      rw [UInt64.toNat_ofNat', Nat.mod_eq_of_lt (by omega)]
    have hone : (submitted [r]).length = 1 := by
      unfold submitted
      rw [List.filter_cons_of_pos (by simp [hnew])]
      rfl
    refine ⟨_, hafter.sent, ?_, messages_ticker _ _,
      hone ▸ adds_messages_le _ _⟩
    rw [hafter.book]
    refine MarketOrderBook.replay_new hgood.ok (hfree hnew) ?_ ?_ ?_
    · show s.nextMarketOrderId.toNat < matchingEngineMaxOrderIds
      rw [hnext, hnumber _ le_rfl]
      exact hcount
    · intro c x hx
      show x.key.marketOrderId < s.nextMarketOrderId
      have hon : x ∈ onBook s.book := by
        cases c
        · exact List.mem_append_right _ hx
        · exact List.mem_append_left _ hx
      obtain ⟨k, hk, hid⟩ := (hledger (by omega)).resting x hon
      rw [hid, hnext, UInt64.lt_iff_toNat_lt, hnumber k (by omega),
        hnumber _ le_rfl]
      omega
    · rw [← hafter.book]
      exact fits_of_booked hgood'.stored
  · exact ⟨_, rfl, .nil, fun _ hu => (List.not_mem_nil hu).elim,
      Nat.zero_le _⟩
  · obtain ⟨l, m, hsplit, hbook⟩ := hafter.book
    refine ⟨_, hafter.sent, (MarketOrderBook.replay_cancel r.tickerId hsplit
      hbook hafter.other).changes, ?_, Nat.zero_le _⟩
    intro u hu
    cases List.mem_singleton.1 hu
    rfl

/-- The updates sent along a clean run lead a new market book to the
exchange's lists. -/
theorem leads_of_cleanRun {rs : List MatchingEngineClientRequest}
    {s : MatchingEngineOrderBook} (h : Run CleanStep new rs s) :
    (submitted rs).length < matchingEngineMaxOrderIds →
    Leads (updatesOf s.sent) (fun _ => []) (listsOf s.book) := by
  refine h.induct (I := fun rs s =>
    (submitted rs).length < matchingEngineMaxOrderIds →
      Leads (updatesOf s.sent) (fun _ => []) (listsOf s.book)) ?_ ?_
  · rw [book_new]
    exact fun _ => Leads.refl _
  · intro rs s r s' hrun ih hstep hcount
    have hlen : (submitted rs).length ≤ (submitted (rs ++ [r])).length := by
      rw [submitted_snoc, List.length_append]
      omega
    obtain ⟨out, hsent, hchanges, -⟩ :=
      changes_of_cleanStep hrun hstep hcount
    rw [hsent, updatesOf_append]
    exact (ih (by omega)).append hchanges.leads

/-- Two books with the same lists show the same levels. -/
theorem levelViews_of_holds {s : MatchingEngineOrderBook} {lay lay' : Layout}
    {m : MarketOrderBook} (h : Stored s lay) (hm : Holds m lay' (listsOf s.book))
    (b : Bool) : m.ladder.levelViews b
      = (s.ladder.levelViews b).map LevelView.toMarket := by
  have hbook : m.ladder.restingOrders b
      = (s.ladder.restingOrders b).map toMarket := hm.book b
  rw [h.booked.levelViews_eq, hm.mirror.booked.levelViews_eq, hbook,
    levelsOf_mapKey, List.map_map, List.map_map]
  refine List.map_congr_left fun run _ => ?_
  cases run with
  | nil => rfl
  | cons r run => rfl

/-- A NEW order adds at most one order. -/
theorem onBook_apply_length (i : Incoming) (book : Reference.Book) :
    (onBook (i.apply book)).length ≤ (onBook book).length + 1 := by
  have hrest : (i.swept book).rest.length ≤ (book !i.isBuy).length := by
    have hle : ((i.swept book).rest.map core).length
        ≤ ((book !i.isBuy).map core).length := sweep_rest_suffix.length_le
    rwa [List.length_map, List.length_map] at hle
  rw [(onBook_apply i book).length_eq, (onBook_perm book i.isBuy).length_eq,
    List.length_append, List.length_append, List.length_append]
  split
  · show 0 + _ ≤ _
    omega
  · show 1 + _ ≤ _
    omega

/-- No more orders rest than were submitted. -/
theorem onBook_length_le {rs : List MatchingEngineClientRequest}
    {sent : List Sent} {book : Reference.Book} (h : Ledger rs sent book) :
    (onBook book).length ≤ (submitted rs).length := by
  have hsub : (onBook book).map (fun r => r.key.marketOrderId)
      ⊆ (List.range (submitted rs).length).map orderIdOf := by
    intro m hm
    obtain ⟨r, hr, rfl⟩ := List.mem_map.1 hm
    obtain ⟨k, hk, hid⟩ := h.resting r hr
    show r.key.marketOrderId ∈ _
    rw [hid]
    exact List.mem_map_of_mem (List.mem_range.2 hk)
  have hle := (List.subperm_of_subset h.nodup hsub).length_le
  rwa [List.length_map, List.length_map, List.length_range] at hle

/-- A request whose outcome has at most 255 levels is processed, as long
as fewer than 2^20 orders were submitted. -/
theorem cleanStep_of_cleanRun {rs : List MatchingEngineClientRequest}
    {s : MatchingEngineOrderBook} (h : Run CleanStep new rs s)
    {r : MatchingEngineClientRequest} (hv : Valid r)
    (hcount : (submitted (rs ++ [r])).length < matchingEngineMaxOrderIds)
    (hnew : r.type = .new → SlotFree s.book r.price
      ∧ levelCount ((s.incoming r).apply s.book)
        < matchingEngineMaxPriceLevels) : ∃ s', CleanStep s r s' := by
  obtain ⟨lay, hgood⟩ := good_of_cleanRun h
  have hfree : r.type = .new → ((s.incoming r).swept s.book).left ≠ 0 →
      SlotFree ((s.incoming r).sweptBook s.book) r.price :=
    fun hr _ => Incoming.slotFree_swept (i := s.incoming r) (hnew hr).1
  suffices hproc : ∃ s', Processed s r s' by
    obtain ⟨s', hproc⟩ := hproc
    obtain ⟨lay', hgood'⟩ := hgood.step hv hproc hfree
    exact ⟨s', hv, hproc, hgood'.ok.slots⟩
  rcases hgood.progress hv (fun hr => (hnew hr).1) with hproc | ⟨s', herr⟩
  · exact hproc
  · exfalso
    rcases hv.type with hr | hr
    · -- a NEW that finds no room would have none after it
      rw [run_new hv hr] at herr
      rcases add_spec (s.incoming r) hgood.stored rfl hv.range (hfree hr) with
        ⟨t, -, hrun, -⟩ | ⟨-, hleft, hfull⟩
      · rw [hrun] at herr
        cases herr
      · refine MarketOrderBook.not_full_of_fits hgood.ok hleft ⟨?_, ?_⟩ hfull
        · have hbound : matchingEngineMaxOrderIds < 2 ^ 64 := by decide
          rw [submitted_snoc, if_pos hr, List.length_append,
            List.length_singleton] at hcount
          have hle := onBook_length_le ((ledger_of_cleanRun h).2 (by omega))
          have hone := onBook_apply_length (s.incoming r) s.book
          rw [onBook, List.length_append] at hone
          omega
        · exact (hnew hr).2
    · rw [run_cancel hr] at herr
      rcases cancel_spec hgood.stored r.tickerId hv.range with
        ⟨-, hrun⟩ | ⟨-, t, -, -, -, hrun, -⟩
      · rw [hrun] at herr
        cases herr
      · rw [hrun] at herr
        cases herr

/-- The market book is a replica of the exchange's along every clean run
of fewer than 2^20 orders, and such a run goes on as long as at most 255
levels are live. -/
theorem replica_of_cleanRun {rs : List MatchingEngineClientRequest}
    {s : MatchingEngineOrderBook} (h : Run CleanStep new rs s)
    (hcount : (submitted rs).length < matchingEngineMaxOrderIds) :
    (∃ m, (MarketOrderBook.onMarketUpdates (updatesOf s.sent)).run
        MarketOrderBook.new = .ok () m
      ∧ ∀ b, m.ladder.levelViews b
        = (s.ladder.levelViews b).map LevelView.toMarket)
    ∧ ∀ r, Valid r →
      (submitted (rs ++ [r])).length < matchingEngineMaxOrderIds →
      (r.type = .new → SlotFree s.book r.price
        ∧ levelCount ((s.incoming r).apply s.book)
          < matchingEngineMaxPriceLevels) →
      ∃ s', CleanStep s r s' := by
  obtain ⟨lay, hgood⟩ := good_of_cleanRun h
  have hnew : Holds MarketOrderBook.new .empty fun _ => [] :=
    ⟨MarketOrderBook.mirror_new, fun c => by rw [MarketOrderBook.book_new]⟩
  obtain ⟨m, lay', hrun, hm⟩ := leads_of_cleanRun h hcount _ _ hnew
  refine ⟨⟨m, hrun, levelViews_of_holds hgood.stored hm⟩, ?_⟩
  intro r hv hcount' hfree
  exact cleanStep_of_cleanRun h hv hcount' hfree

/-- The replica of two orders, one of them cancelled. -/
theorem replica_churn_one : ∃ s, Run CleanStep new (churn 1) s
    ∧ (submitted (churn 1)).length < matchingEngineMaxOrderIds
    ∧ ∃ m, (MarketOrderBook.onMarketUpdates (updatesOf s.sent)).run
        MarketOrderBook.new = .ok () m
      ∧ ∀ b, m.ladder.levelViews b
        = (s.ladder.levelViews b).map LevelView.toMarket := by
  obtain ⟨s, -, hrun, -⟩ := churned 1
  have hclean := cleanRun_of_run hrun
  exact ⟨s, hclean, by decide, (replica_of_cleanRun hclean (by decide)).1⟩

end MatchingEngineOrderBook

end ElectronicTrading
