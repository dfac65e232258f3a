/-
The public trade tape and the private fills.

`tape` is what the TRADE updates of a log say, `executions` what its
FILLED responses say: `match` sends two for each execution, the
aggressor's first.

MarketUpdateType has TRADE and the trading side acts on it, but no
branch of the book sends one. `tapeAgrees_iff_untraded` says when that
does not show: in the runs in which no NEW order finds a price it
trades at (`Trades`, the loop test of `checkForMatch` on the book before
the step). It asks nothing of the requests: any side, any ids, any
prices.
-/
import ElectronicTrading.Exchange.Proofs.Steps

namespace ElectronicTrading

open Runs

/-- One execution, as one side of it is told. -/
structure Execution where
  side : Side
  price : Price
  quantity : Quantity
deriving DecidableEq

namespace Sent

/-- A FILLED response. -/
def fill? : Sent → Option MatchingEngineClientResponse
  | .response r => if r.type = .filled then some r else none
  | .update _ => none

/-- A TRADE update. -/
def trade? : Sent → Option Execution
  | .response _ => none
  | .update u =>
      if u.type = .trade then some ⟨u.side, u.price, u.quantity⟩ else none

end Sent

/-- The FILLED responses of a log. -/
def fills (sent : List Sent) : List MatchingEngineClientResponse :=
  sent.filterMap Sent.fill?

/-- The executions told by a list of fills, each by the first of its
two. -/
def executions : List MatchingEngineClientResponse → List Execution
  | aggressor :: _ :: rest =>
      ⟨aggressor.side, aggressor.price, aggressor.execQuantity⟩
        :: executions rest
  | _ => []

/-- The TRADE updates of a log. -/
def tape (sent : List Sent) : List Execution := sent.filterMap Sent.trade?

/-- The tape tells the executions, and with them half of the quantity
filled. -/
structure TapeAgrees (sent : List Sent) : Prop where
  trades : tape sent = executions (fills sent)
  volume : 2 * ((tape sent).map (·.quantity.toNat)).sum
    = ((fills sent).map (·.execQuantity.toNat)).sum

@[simp] theorem fills_append (sent sent' : List Sent) :
    fills (sent ++ sent') = fills sent ++ fills sent' :=
  List.filterMap_append

@[simp] theorem tape_append (sent sent' : List Sent) :
    tape (sent ++ sent') = tape sent ++ tape sent' :=
  List.filterMap_append

/-- With two fills there is an execution. -/
theorem executions_ne_nil {l : List MatchingEngineClientResponse}
    (h : 2 ≤ l.length) : executions l ≠ [] := by
  match l, h with
  | _ :: _ :: _, _ => simp [executions]

/-- A log without a fill and without a trade agrees. -/
theorem tapeAgrees_of_nil {sent : List Sent} (ht : tape sent = [])
    (hf : fills sent = []) : TapeAgrees sent where
  trades := by rw [ht, hf]; rfl
  volume := by rw [ht, hf]; rfl

namespace MatchingEngineOrderBook

open Exec

-- ================================================================ the log

/-- A message of the book: anything but a TRADE. -/
def Spoken : Sent → Prop
  | .response _ => True
  | .update u => u.type ≠ .trade

/-- A message that tells of no execution. -/
def Silent : Sent → Prop
  | .response r => r.type ≠ .filled
  | .update u => u.type ≠ .trade

/-- A log in `R` stays in `R` when a message in `T` is added. -/
def ClosedUnder (T : Sent → Prop) (R : List Sent → Prop) : Prop :=
  ∀ l x, T x → R l → R (l ++ [x])

section Log

variable {T : Sent → Prop} {R : List Sent → Prop}

theorem ClosedUnder.silent (h : ClosedUnder Spoken R) :
    ClosedUnder Silent R := by
  intro l x hx hl
  refine h l x ?_ hl
  cases x with
  | response r => trivial
  | update u => exact hx

theorem onLadder_log {α : Type} (x : Prog (Ladder OrderIds) α) :
    Keeps (fun s => R s.sent) (onLadder x) := by
  refine Spec.zoom fun s hs => ?_
  cases x.run s.ladder with
  | ok a t => exact hs
  | error e t => exact hs

theorem assert_log (c : Bool) (f : Fault) :
    Keeps (fun s : MatchingEngineOrderBook => R s.sent) (assert c f) := by
  intro s hs
  cases c with
  | true => exact hs
  | false => exact hs

theorem setClientOrder_log (c : ClientID) (o : OrderID) (p : Option Ptr) :
    Keeps (fun s => R s.sent) (setClientOrder c o p) :=
  Keeps.bind (assert_log _ _) fun _ => Keeps.modify fun _ hs => hs

theorem removeOrder_log (p : Option Ptr) :
    Keeps (fun s => R s.sent) (removeOrder p) :=
  Keeps.bind (onLadder_log _) fun _ =>
    Keeps.bind (onLadder_log _) fun _ =>
      Keeps.bind (setClientOrder_log _ _ _) fun _ => onLadder_log _

theorem addOrder_log (p : Option Ptr) :
    Keeps (fun s => R s.sent) (addOrder p) :=
  Keeps.bind (onLadder_log _) fun _ =>
    Keeps.bind (onLadder_log _) fun _ => setClientOrder_log _ _ _

theorem generateNewMarketOrderId_log :
    Keeps (fun s => R s.sent) generateNewMarketOrderId :=
  fun _ hs => hs

theorem sendClientResponse_log (hR : ClosedUnder T R)
    {r : MatchingEngineClientResponse} (hr : T (.response r)) :
    Keeps (fun s => R s.sent) (sendClientResponse r) :=
  Keeps.modify fun s hs => hR s.sent _ hr hs

theorem sendMarketUpdate_log (hR : ClosedUnder T R)
    {u : MatchingEngineMarketUpdate} (hu : T (.update u)) :
    Keeps (fun s => R s.sent) (sendMarketUpdate u) :=
  Keeps.modify fun s hs => hR s.sent _ hu hs

section Matching

variable (hR : ClosedUnder Spoken R)
include hR

theorem matchOrder_log (tickerId : TickerID) (clientId : ClientID)
    (side : Side) (clientOrderId marketOrderId : OrderID)
    (itr : Option Ptr) (leaves : Quantity) :
    Keeps (fun s => R s.sent) (matchOrder tickerId clientId side
      clientOrderId marketOrderId itr leaves) := by
  unfold matchOrder
  refine Keeps.bind (onLadder_log _) fun order => ?_
  refine Keeps.bind (onLadder_log _) fun _ => ?_
  refine Keeps.bind (sendClientResponse_log hR trivial) fun _ => ?_
  refine Keeps.bind (onLadder_log _) fun order => ?_
  refine Keeps.bind (sendClientResponse_log hR trivial) fun _ => ?_
  refine Keeps.ite (fun _ => ?_) fun _ => ?_
  · exact Keeps.bind (sendMarketUpdate_log hR nofun) fun _ =>
      Keeps.bind (removeOrder_log _) fun _ => Keeps.pure _
  · exact Keeps.bind (sendMarketUpdate_log hR nofun) fun _ =>
      Keeps.pure _

theorem matchWhile_log (isBuy : Bool) (stop : Price → Bool)
    (tickerId : TickerID) (clientId : ClientID) (side : Side)
    (clientOrderId marketOrderId : OrderID) (fuel : Nat)
    (leaves : Quantity) :
    Keeps (fun s => R s.sent) (matchWhile isBuy stop tickerId clientId side
      clientOrderId marketOrderId fuel leaves) := by
  induction fuel generalizing leaves with
  | zero => exact Keeps.throw _
  | succ fuel ih =>
      refine Keeps.get_bind fun s _ => ?_
      refine Keeps.ite (fun _ => Keeps.pure _) fun _ => ?_
      refine Keeps.bind (onLadder_log _) fun level => ?_
      refine Keeps.bind (onLadder_log _) fun order => ?_
      refine Keeps.ite (fun _ => Keeps.pure _) fun _ => ?_
      exact Keeps.bind (matchOrder_log hR _ _ _ _ _ _ _) fun _ => ih _

theorem checkForMatch_log (clientId : ClientID) (clientOrderId : OrderID)
    (tickerId : TickerID) (side : Side) (price : Price)
    (quantity : Quantity) (marketOrderId : OrderID) :
    Keeps (fun s => R s.sent) (checkForMatch clientId clientOrderId tickerId
      side price quantity marketOrderId) := by
  refine Keeps.get_bind fun s _ => ?_
  refine Keeps.ite (fun _ => matchWhile_log hR _ _ _ _ _ _ _ _ _)
    fun _ => ?_
  exact Keeps.ite (fun _ => matchWhile_log hR _ _ _ _ _ _ _ _ _)
    fun _ => Keeps.pure _

end Matching

/-- What comes after the matching in `add`. -/
theorem rest_log (hR : ClosedUnder Silent R) (clientId : ClientID)
    (clientOrderId : OrderID) (tickerId : TickerID) (side : Side) (price : Price)
    (marketOrderId : OrderID) (leaves : Quantity) :
    Keeps (fun s => R s.sent) (do
      if leaves ≠ 0 then
        let priority ← onLadder (getNextPriority price)
        let order ← onLadder (Ladder.allocateOrder
          { key := ⟨tickerId, clientId, clientOrderId, marketOrderId⟩,
            side := side, price := price, quantity := leaves,
            priority := priority, prevOrder := none, nextOrder := none })
        addOrder order
        sendMarketUpdate
          { type := .add, orderId := marketOrderId, tickerId := tickerId,
            side := side, price := price, quantity := leaves,
            priority := priority } : Member Unit) := by
  refine Keeps.ite (fun _ => ?_) fun _ => Keeps.pure _
  refine Keeps.bind (onLadder_log _) fun priority => ?_
  refine Keeps.bind (onLadder_log _) fun order => ?_
  exact Keeps.bind (addOrder_log _) fun _ =>
    sendMarketUpdate_log hR nofun

theorem cancel_log (hR : ClosedUnder Silent R) (clientId : ClientID)
    (orderId : OrderID) (tickerId : TickerID) :
    Keeps (fun s => R s.sent) (cancel clientId orderId tickerId) := by
  have hfind : Keeps (fun s => R s.sent) (findOrder clientId orderId) := by
    refine Keeps.ite (fun _ => ?_) fun _ => Keeps.pure _
    exact Keeps.bind (assert_log _ _) fun _ =>
      Keeps.get_bind fun _ _ => Keeps.pure _
  refine Keeps.bind hfind fun order => ?_
  refine Keeps.ite (fun _ => sendClientResponse_log hR nofun) fun _ => ?_
  refine Keeps.bind (onLadder_log _) fun o => ?_
  refine Keeps.bind (removeOrder_log _) fun _ => ?_
  exact Keeps.bind (sendMarketUpdate_log hR nofun) fun _ =>
    sendClientResponse_log hR nofun

theorem add_log (hR : ClosedUnder Spoken R) (clientId : ClientID)
    (clientOrderId : OrderID) (tickerId : TickerID) (side : Side) (price : Price)
    (quantity : Quantity) :
    Keeps (fun s => R s.sent) (add clientId clientOrderId tickerId side price
      quantity) := by
  unfold add
  refine Keeps.bind generateNewMarketOrderId_log fun id => ?_
  refine Keeps.bind (sendClientResponse_log hR trivial) fun _ => ?_
  refine Keeps.bind (checkForMatch_log hR _ _ _ _ _ _ _) fun leaves => ?_
  exact rest_log hR.silent _ _ _ _ _ _ _

theorem processClientRequest_log (hR : ClosedUnder Spoken R)
    (r : MatchingEngineClientRequest) :
    Keeps (fun s => R s.sent) (processClientRequest r) := by
  unfold processClientRequest
  cases r.type with
  | new => exact add_log hR _ _ _ _ _ _
  | cancel => exact cancel_log hR.silent _ _ _
  | invalid => exact Keeps.throw _
  | unnamed => exact Keeps.throw _

end Log

/-- No TRADE is logged. -/
theorem closedUnder_tape : ClosedUnder Spoken fun l => tape l = [] := by
  intro l x hx hl
  rw [tape_append, hl, List.nil_append]
  cases x with
  | response r => rfl
  | update u => exact List.filterMap_cons_none (if_neg hx)

/-- A silent message adds no fill. -/
theorem closedUnder_noFills : ClosedUnder Silent fun l => fills l = [] := by
  intro l x hx hl
  rw [fills_append, hl, List.nil_append]
  cases x with
  | response r => exact List.filterMap_cons_none (if_neg hx)
  | update u => rfl

/-- No fill is taken back. -/
theorem closedUnder_fills (n : Nat) :
    ClosedUnder Spoken fun l => n ≤ (fills l).length := by
  intro l x _ hl
  rw [fills_append, List.length_append]
  omega

theorem tape_of_processed {s s' : MatchingEngineOrderBook}
    {r : MatchingEngineClientRequest} (h : Processed s r s')
    (hs : tape s.sent = []) : tape s'.sent = [] :=
  (processClientRequest_log closedUnder_tape r).of_run_ok hs h

theorem fills_of_processed {s s' : MatchingEngineOrderBook}
    {r : MatchingEngineClientRequest} (h : Processed s r s') {n : Nat}
    (hs : n ≤ (fills s.sent).length) : n ≤ (fills s'.sent).length :=
  (processClientRequest_log (closedUnder_fills n) r).of_run_ok hs h

-- ============================================================= the matching

/-- The price of the first order at the best price of side `b`. -/
def bestPrice (s : MatchingEngineOrderBook) (b : Bool) : Option Price :=
  match s.ladder.best b with
  | none => none
  | some level => match (s.ladder.level level).firstOrder with
    | none => none
    | some order => some (s.ladder.order order).price

/-- A NEW order that finds a price it trades at. -/
def Trades (s : MatchingEngineOrderBook) (r : MatchingEngineClientRequest) :
    Prop :=
  r.type = .new ∧ r.quantity ≠ 0
    ∧ ((r.side = .buy ∧ ∃ best, s.bestPrice false = some best
        ∧ best ≤ r.price)
      ∨ (r.side = .sell ∧ ∃ best, s.bestPrice true = some best
        ∧ r.price ≤ best))

/-- A fill sends two responses. -/
theorem matchOrder_fills (tickerId : TickerID) (clientId : ClientID)
    (side : Side) (clientOrderId marketOrderId : OrderID)
    (itr : Option Ptr) (leaves : Quantity) :
    Spec (fun _ => True) (matchOrder tickerId clientId side clientOrderId
        marketOrderId itr leaves)
      (fun _ s => 2 ≤ (fills s.sent).length) fun _ _ => True := by
  unfold matchOrder
  refine Spec.bind (onLadder_log (R := fun _ => True) _).spec fun order => ?_
  refine Spec.bind (onLadder_log (R := fun _ => True) _).spec fun _ => ?_
  refine Spec.bind (M := fun _ s => 1 ≤ (fills s.sent).length)
    (Spec.modify fun s _ => ?_) fun _ => ?_
  · rw [fills_append, List.length_append]
    exact Nat.le_add_left _ _
  refine Keeps.bind_spec (onLadder_log (R := fun l => 1 ≤ (fills l).length) _)
    fun order => ?_
  refine Spec.bind (M := fun _ s => 2 ≤ (fills s.sent).length)
    (Spec.modify fun s hs => ?_) fun _ => ?_
  · rw [fills_append, List.length_append]
    exact Nat.add_le_add_right hs 1
  have hclosed := closedUnder_fills 2
  refine Spec.ite (fun _ => ?_) fun _ => ?_
  · exact Keeps.bind_spec (sendMarketUpdate_log hclosed nofun) fun _ =>
      Keeps.bind_spec (removeOrder_log (R := fun l => 2 ≤ (fills l).length) _)
        fun _ => (Keeps.pure _).spec
  · exact Keeps.bind_spec (sendMarketUpdate_log hclosed nofun) fun _ =>
      (Keeps.pure _).spec

/-- The matching loop stops before its first fill, or makes one. -/
theorem matchWhile_cases {isBuy : Bool} {stop : Price → Bool}
    {tickerId : TickerID} {clientId : ClientID} {side : Side}
    {clientOrderId marketOrderId : OrderID} {fuel : Nat}
    {leaves left : Quantity} {s s' : MatchingEngineOrderBook}
    (h : (matchWhile isBuy stop tickerId clientId side clientOrderId
      marketOrderId (fuel + 1) leaves).run s = .ok left s') :
    (s' = s ∧ ¬ (leaves ≠ 0
        ∧ ∃ best, s.bestPrice (!isBuy) = some best ∧ stop best = false))
      ∨ (2 ≤ (fills s'.sent).length ∧ leaves ≠ 0
        ∧ ∃ best, s.bestPrice (!isBuy) = some best ∧ stop best = false) := by
  obtain ⟨t, s₁, hget, h⟩ := run_bind_eq_ok h
  cases hget
  dsimp only at h
  split at h
  · next hc =>
      cases h
      refine Or.inl ⟨rfl, ?_⟩
      intro h
      obtain ⟨hleaves, best, hbest, -⟩ := h
      rw [bestPrice, hc.resolve_left hleaves] at hbest
      cases hbest
  · next hc =>
      obtain ⟨hleaves, hbest⟩ := not_or.1 hc
      obtain ⟨level, hlevel⟩ := Option.ne_none_iff_exists'.1 hbest
      rw [hlevel] at h
      obtain ⟨l, s₂, hread, h⟩ := run_bind_eq_ok h
      rw [run_onLadder_readLevel] at hread
      cases hread
      obtain ⟨o, s₃, hread, h⟩ := run_bind_eq_ok h
      cases hfirst : (s.ladder.level level).firstOrder with
      | none =>
          rw [hfirst] at hread
          cases hread
      | some order =>
          rw [hfirst, run_onLadder_readOrder] at hread
          cases hread
          have hprice : s.bestPrice (!isBuy)
              = some (s.ladder.order order).price := by
            rw [bestPrice, hlevel]
            simp only [hfirst]
          split at h
          · next hstop =>
              cases h
              refine Or.inl ⟨rfl, ?_⟩
              intro h
              obtain ⟨-, best, hbest', hgo⟩ := h
              rw [hprice] at hbest'
              cases hbest'
              rw [hstop] at hgo
              cases hgo
          · next hstop =>
              obtain ⟨left', s₄, hmatch, h⟩ := run_bind_eq_ok h
              have htwo := (matchOrder_fills _ _ _ _ _ _ _).of_run_ok
                trivial hmatch
              exact Or.inr ⟨(matchWhile_log (closedUnder_fills 2) _ _ _ _ _ _
                _ _ _).of_run_ok htwo h, hleaves, _, hprice,
                Bool.eq_false_iff.2 hstop⟩

/-- The matching leaves the book alone, or sends a fill. -/
theorem checkForMatch_cases {s s' : MatchingEngineOrderBook}
    {r : MatchingEngineClientRequest} {marketOrderId : OrderID}
    {left : Quantity} (hnew : r.type = .new)
    (h : (checkForMatch r.clientId r.orderId r.tickerId r.side r.price
      r.quantity marketOrderId).run s = .ok left s') :
    (s' = s ∧ ¬ Trades s r) ∨ (2 ≤ (fills s'.sent).length ∧ Trades s r) := by
  obtain ⟨t, s₁, hget, h⟩ := run_bind_eq_ok h
  cases hget
  dsimp only at h
  split at h
  · next hbuy =>
      rcases matchWhile_cases h with ⟨rfl, hno⟩ | ⟨htwo, hq, best, hbest, hgo⟩
      · refine Or.inl ⟨rfl, ?_⟩
        intro h
        obtain ⟨-, hq, ⟨-, best, hbest, hle⟩ | ⟨hsell, -⟩⟩ := h
        · exact hno ⟨hq, best, hbest, decide_eq_false (Int.not_lt.2 hle)⟩
        · rw [hbuy] at hsell
          cases hsell
      · exact Or.inr ⟨htwo, hnew, hq, Or.inl ⟨hbuy, best, hbest,
          Int.not_lt.1 (of_decide_eq_false hgo)⟩⟩
  · next hbuy =>
      split at h
      · next hsell =>
          rcases matchWhile_cases h with
            ⟨rfl, hno⟩ | ⟨htwo, hq, best, hbest, hgo⟩
          · refine Or.inl ⟨rfl, ?_⟩
            intro h
            obtain ⟨-, hq, ⟨hbuy', -⟩ | ⟨-, best, hbest, hle⟩⟩ := h
            · exact hbuy hbuy'
            · exact hno ⟨hq, best, hbest, decide_eq_false (Int.not_lt.2 hle)⟩
          · exact Or.inr ⟨htwo, hnew, hq, Or.inr ⟨hsell, best, hbest,
              Int.not_lt.1 (of_decide_eq_false hgo)⟩⟩
      · next hsell =>
          cases h
          refine Or.inl ⟨rfl, ?_⟩
          intro h
          obtain ⟨-, -, ⟨hbuy', -⟩ | ⟨hsell', -⟩⟩ := h
          · exact hbuy hbuy'
          · exact hsell hsell'

/-- A request that trades is filled. -/
theorem Trades.fills {s s' : MatchingEngineOrderBook}
    {r : MatchingEngineClientRequest} (h : Trades s r)
    (hp : Processed s r s') : 2 ≤ (fills s'.sent).length := by
  unfold Processed processClientRequest at hp
  rw [h.1] at hp
  obtain ⟨id, s₁, hid, hp⟩ := run_bind_eq_ok hp
  cases hid
  obtain ⟨u, s₂, hsend, hp⟩ := run_bind_eq_ok hp
  cases hsend
  obtain ⟨left, s₃, hmatch, hp⟩ := run_bind_eq_ok hp
  rcases checkForMatch_cases h.1 hmatch with ⟨-, hno⟩ | ⟨htwo, -⟩
  · exact absurd h hno
  · exact (rest_log (closedUnder_fills 2).silent _ _ _ _ _ _ _).of_run_ok
      htwo hp

/-- A request that does not trade is not. -/
theorem fills_of_not_trades {s s' : MatchingEngineOrderBook}
    {r : MatchingEngineClientRequest} (h : ¬ Trades s r)
    (hp : Processed s r s') (hs : fills s.sent = []) :
    fills s'.sent = [] := by
  unfold Processed processClientRequest at hp
  cases htype : r.type with
  | new =>
      rw [htype] at hp
      obtain ⟨id, s₁, hid, hp⟩ := run_bind_eq_ok hp
      cases hid
      obtain ⟨u, s₂, hsend, hp⟩ := run_bind_eq_ok hp
      cases hsend
      obtain ⟨left, s₃, hmatch, hp⟩ := run_bind_eq_ok hp
      rcases checkForMatch_cases htype hmatch with ⟨rfl, -⟩ | ⟨-, htrades⟩
      · refine (rest_log closedUnder_noFills _ _ _ _ _ _ _).of_run_ok ?_ hp
        exact closedUnder_noFills _ (.response _) nofun hs
      · exact absurd htrades h
  | cancel =>
      rw [htype] at hp
      exact (cancel_log closedUnder_noFills _ _ _).of_run_ok hs hp
  | invalid => rw [htype] at hp; cases hp
  | unnamed => rw [htype] at hp; cases hp

-- ================================================================= the run

/-- One request that does not trade. -/
def Untraded (s : MatchingEngineOrderBook) (r : MatchingEngineClientRequest)
    (s' : MatchingEngineOrderBook) : Prop :=
  Processed s r s' ∧ ¬ Trades s r

/-- The tape agrees with the fills as long as there are none. -/
theorem tapeAgrees_iff_untraded {rs : List MatchingEngineClientRequest}
    {s : MatchingEngineOrderBook} (h : Run Processed new rs s) :
    TapeAgrees s.sent ↔ Run Untraded new rs s := by
  have htape : tape s.sent = [] :=
    h.induct (I := fun _ s => tape s.sent = []) rfl
      fun _ _ _ _ _ ih hp => tape_of_processed hp ih
  constructor
  · intro hagrees
    have hfew : (fills s.sent).length < 2 := by
      by_contra htwo
      refine executions_ne_nil (Nat.not_lt.1 htwo) ?_
      rw [← hagrees.trades, htape]
    clear htape hagrees
    induction h with
    | nil => exact .nil
    | snoc hrun hp ih =>
        have hbefore := Nat.lt_of_le_of_lt
          (fills_of_processed hp (Nat.le_refl _)) hfew
        refine (ih hbefore).snoc ⟨hp, fun htrades => ?_⟩
        exact absurd (htrades.fills hp) (Nat.not_le.2 hfew)
  · intro hrun
    refine tapeAgrees_of_nil htape ?_
    exact hrun.induct (I := fun _ s => fills s.sent = []) rfl
      fun _ _ _ _ _ ih hp => fills_of_not_trades hp.2 hp.1 ih

-- ------------------------------------------------------------ one trade

/-- One lot is offered at 100 and bought. -/
def oneTrade : List MatchingEngineClientRequest :=
  [{ type := .new, clientId := 0, tickerId := 0, orderId := 0, side := .sell,
     price := 100, quantity := 1 },
   { type := .new, clientId := 1, tickerId := 0, orderId := 0, side := .buy,
     price := 100, quantity := 1 }]

theorem run_oneTrade : ∃ s, Run CleanStep new oneTrade s
    ∧ executions (fills s.sent) ≠ [] ∧ tape s.sent = [] :=
  exists_cleanRun oneTrade _ (by decide +kernel)

/-- It is filled, but not on the tape. -/
theorem not_tapeAgrees_oneTrade :
    ¬ ∀ rs s, Run CleanStep new rs s → TapeAgrees s.sent := by
  intro hall
  obtain ⟨s, hrun, hexec, htape⟩ := run_oneTrade
  refine hexec ?_
  rw [← (hall _ _ hrun).trades, htape]

/-- The condition and the property on that run, both false. -/
theorem tapeAgrees_iff_untraded_oneTrade : ∃ s, Run Processed new oneTrade s
    ∧ (TapeAgrees s.sent ↔ Run Untraded new oneTrade s) := by
  obtain ⟨s, hrun, -⟩ := run_oneTrade
  have hprocessed : Run Processed new oneTrade s :=
    hrun.mono (I := fun _ => True) (fun _ _ _ _ h => h.processed)
      fun _ _ _ => trivial
  exact ⟨s, hprocessed, tapeAgrees_iff_untraded hprocessed⟩

end MatchingEngineOrderBook

end ElectronicTrading
