/-
The client's books and the exchange's.

The exchange executes, and the client is told later. What the client has
been told is the first part of all its answers, the rest is on its way
(`Told.answers`), and its position is what it was told was executed
(`Told.position`): no fill is lost, added twice or booked on the wrong side,
and the 32-bit position does not wrap, since with the fills on their way it
is within the limit. So the position and the fills on their way make up
exactly what the exchange has executed for the client (`settled_of_run`).
-/
import ElectronicTrading.Exchange.Output
import ElectronicTrading.Trading.Proofs.TradingSession

namespace ElectronicTrading

open Runs Reference
open SnapshotSynthesizer (tickerOf tickerOf_injective)

-- ================================================================= executions

/-- What answers say was executed of a client's orders of a ticker and
side. -/
def executedIn (i : Fin matchingEngineMaxTickers) (b : Bool)
    (ms : List MatchingEngineClientResponse) : Nat :=
  (((answersFor (tickerOf i) (sideOf b) ms).filter
    (·.type = .filled)).map (·.execQuantity.toNat)).sum

section Executed

variable {i : Fin matchingEngineMaxTickers} {b : Bool}
  {m : MatchingEngineClientResponse} {ms ms' : List MatchingEngineClientResponse}

theorem executedIn_append (ms ms' : List MatchingEngineClientResponse) :
    executedIn i b (ms ++ ms') = executedIn i b ms + executedIn i b ms' := by
  unfold executedIn
  rw [answersFor_append, List.filter_append, List.map_append, List.sum_append]

/-- A fill counts for its ticker and side. -/
theorem executedIn_fill (hfilled : m.type = .filled)
    (hticker : m.tickerId = tickerOf i) (hside : m.side = sideOf b) :
    executedIn i b [m] = m.execQuantity.toNat := by
  unfold executedIn
  rw [answersFor_cons_own ⟨hticker, hside⟩]
  have hone : List.filter (fun x => decide (x.type = .filled))
      (m :: answersFor (tickerOf i) (sideOf b) []) = [m] :=
    List.filter_cons_of_pos (decide_eq_true hfilled)
  rw [hone]
  exact Nat.add_zero _

/-- Any other answer does not. -/
theorem executedIn_other (h : ¬ (m.type = .filled ∧ m.tickerId = tickerOf i
    ∧ m.side = sideOf b)) : executedIn i b [m] = 0 := by
  unfold executedIn
  by_cases hfor : m.tickerId = tickerOf i ∧ m.side = sideOf b
  · have hnot : ¬ m.type = .filled := fun hfilled => h ⟨hfilled, hfor⟩
    rw [answersFor_cons_own hfor, List.filter_cons_of_neg (by simpa using hnot)]
    rfl
  · rw [answersFor_cons_other hfor]
    rfl

end Executed

namespace TradingSession

variable {c : ClientID} {riskConfig : TickerID → RiskConfig}
  {s s' : TradingSession} {told : List MatchingEngineClientResponse}

/-- The client has been told `told`, and has its position from it. -/
structure Told (c : ClientID) (s : TradingSession)
    (told : List MatchingEngineClientResponse) : Prop where
  answers : answersTo c s.engine.sent = told ++ s.responses
  position : ∀ i, s.position i
    = (executedIn i true told : Int) - executedIn i false told

/-- Something else than an answer has happened to the desk. -/
theorem Told.of_eq (h : Told c s told)
    (hsent : s'.engine.sent = s.engine.sent)
    (hresponses : s'.responses = s.responses)
    (hposition : ∀ i, s'.position i = s.position i) : Told c s' told where
  answers := by
    rw [hsent, hresponses]
    exact h.answers
  position := fun i => (hposition i).trans (h.position i)

/-- The exchange has handled a request. -/
theorem Told.answered (h : Told c s told)
    (hclient : s.desk.orderManager.clientId = c)
    {r : MatchingEngineClientRequest} {engine : MatchingEngine}
    {rs : List MatchingEngineClientRequest}
    (hprocessed : MatchingEngine.Processed s.engine r engine) :
    Told c { s.answered engine with requests := rs } told where
  answers := by
    obtain ⟨new, hnew⟩ := Output.sent_grows (Or.inl ⟨(), hprocessed⟩)
    show answersTo c engine.sent = told ++ (s.responses
      ++ answersTo s.desk.orderManager.clientId
        (engine.sent.drop s.engine.sent.length))
    rw [hclient, ← hnew, List.drop_left, answersTo_append, h.answers,
      List.append_assoc]
  position := h.position

/-- What a response makes of a position. -/
theorem position_of_receive {m : MatchingEngineClientResponse} {desk : Desk}
    (hrun : (Desk.onOrderUpdate m).run s.desk = .ok () desk)
    (i : Fin matchingEngineMaxTickers) :
    (desk.positionKeeper.tickerPosition (tickerOf i)).position
      = if m.type = .filled ∧ tickerOf i = m.tickerId then
          int32 (s.position i
            + m.execQuantity.toNat * sideToValue m.side)
        else s.position i := by
  obtain ⟨-, hdesk⟩ := Desk.onOrderUpdate_cases hrun
  rw [hdesk]
  exact position_filled ⟨s.desk, []⟩ m (tickerOf i)

/-- A fill that is on its way keeps the position in its range. -/
theorem Followed.fits {market : Market} (h : Followed c s market)
    (hmarket : Inv riskConfig market) (hmoderate : Moderate riskConfig)
    {m : MatchingEngineClientResponse}
    {rest : List MatchingEngineClientResponse}
    (hresponses : s.responses = m :: rest) {i : Fin matchingEngineMaxTickers}
    {b : Bool} (hfilled : m.type = .filled)
    (hticker : m.tickerId = tickerOf i) (hside : m.side = sideOf b) :
    int32 (s.position i + m.execQuantity.toNat * sideToValue m.side)
      = s.position i + m.execQuantity.toNat * sideToValue m.side := by
  obtain ⟨working, hroom, huntold, -⟩ := h.room hmarket i b
  have hwithin := (h.withinLimit hmarket i).known
  have hlimit := (hmoderate (tickerOf i)).2
  have hpart : m.execQuantity.toNat ≤ s.untold i b := by
    have hsplit := executedIn_append (i := i) (b := b) [m] rest
    rw [executedIn_fill hfilled hticker hside] at hsplit
    show _ ≤ executedIn i b s.responses
    rw [hresponses]
    show _ ≤ executedIn i b ([m] ++ rest)
    omega
  apply int32_eq
  rw [hside]
  rw [abs_le] at hroom hwithin
  rw [abs_lt]
  cases b with
  | false =>
      have hvalue : sideToValue (sideOf false) = -1 := rfl
      rw [hvalue] at hroom ⊢
      omega
  | true =>
      have hvalue : sideToValue (sideOf true) = 1 := rfl
      rw [hvalue] at hroom ⊢
      omega

/-- The client takes its next response. -/
theorem Told.receive {market : Market} (h : Told c s told)
    (hs : Followed c s market) (hmarket : Inv riskConfig market)
    (hmoderate : Moderate riskConfig) {m : MatchingEngineClientResponse}
    {rest : List MatchingEngineClientResponse} {desk : Desk}
    (hresponses : s.responses = m :: rest)
    (hrun : (Desk.onOrderUpdate m).run s.desk = .ok () desk) :
    Told c { s with desk := desk, responses := rest } (told ++ [m]) where
  answers := by
    rw [List.append_assoc, List.singleton_append, ← hresponses]
    exact h.answers
  position := by
    intro j
    have hold := h.position j
    rw [executedIn_append, executedIn_append]
    refine (position_of_receive hrun j).trans ?_
    by_cases hfill : m.type = .filled ∧ tickerOf j = m.tickerId
    · rw [if_pos hfill]
      have hsided : Sided m := by
        apply hs.linked.answers m
        show m ∈ s.responses
        rw [hresponses]
        exact List.mem_cons_self
      obtain ⟨b, hside⟩ : ∃ b, m.side = sideOf b := by
        rcases hsided with hside | hside | ⟨-, htype⟩
        · exact ⟨true, hside⟩
        · exact ⟨false, hside⟩
        · rw [hfill.1] at htype
          cases htype
      have hown := executedIn_fill hfill.1 hfill.2.symm hside
      have hother : executedIn j (!b) [m] = 0 := by
        apply executedIn_other
        intro h
        obtain ⟨-, -, hside'⟩ := h
        have hb := sideOf_injective (hside.symm.trans hside')
        cases b
        · cases hb
        · cases hb
      rw [hs.fits hmarket hmoderate hresponses hfill.1 hfill.2.symm hside, hside]
      cases b with
      | false =>
          have hvalue : sideToValue (sideOf false) = -1 := rfl
          change executedIn j true [m] = 0 at hother
          rw [hown, hother, hvalue]
          omega
      | true =>
          have hvalue : sideToValue (sideOf true) = 1 := rfl
          change executedIn j false [m] = 0 at hother
          rw [hown, hother, hvalue]
          omega
    · rw [if_neg hfill]
      have hnone : ∀ b, executedIn j b [m] = 0 := fun b =>
        executedIn_other fun hfor => hfill ⟨hfor.1, hfor.2.1.symm⟩
      rw [hnone, hnone]
      omega

/-- What the client has been told of, along a run. -/
theorem told_of_run (hmoderate : Moderate riskConfig) {as : List Act}
    (h : Run (fun s a s' => Step s a s' ∧ Clean s a) (new c riskConfig) as s) :
    ∃ told, Told c s told := by
  refine h.induct (I := fun _ s => ∃ told, Told c s told) ?_ ?_
  · exact ⟨[], rfl, fun _ => rfl⟩
  · intro as s a s' hrun ⟨told, htold⟩ ⟨hstep, hclean⟩
    obtain ⟨market, hmarket, hs⟩ := exists_followed hmoderate hrun
    cases a with
    | moveOrders tickerId bidPrice askPrice clip =>
        obtain ⟨desk, hmove, rfl⟩ := hstep
        refine ⟨told, htold.of_eq rfl rfl fun i => ?_⟩
        unfold position
        rw [(Desk.moveOrders_cases hmove).2]
        rfl
    | updateBBO tickerId bbo =>
        obtain ⟨desk, hupdate, rfl⟩ := hstep
        refine ⟨told, htold.of_eq rfl rfl fun i => ?_⟩
        unfold position
        rw [(Desk.updateBBO_cases hupdate).2]
        unfold PositionKeeper.updated
        dsimp only
        split
        · exact position_updateBBO _ _
        · rfl
    | process =>
        obtain ⟨r, rest, engine, -, hprocessed, rfl⟩ := hstep
        exact ⟨told, htold.answered hs.linked.client hprocessed⟩
    | other r =>
        obtain ⟨-, engine, hprocessed, rfl⟩ := hstep
        exact ⟨told, htold.answered hs.linked.client hprocessed⟩
    | receive =>
        obtain ⟨m, rest, desk, hresponses, hrun', rfl⟩ := hstep
        exact ⟨told ++ [m],
          htold.receive hs hmarket hmoderate hresponses hrun'⟩

/-- The client's position is what it has been told was executed for it, and
with the fills on their way it is what the exchange has executed for it. -/
theorem settled_of_run (hmoderate : Moderate riskConfig) {as : List Act}
    (h : Run (fun s a s' => Step s a s' ∧ Clean s a) (new c riskConfig) as s) :
    ∃ told, answersTo c s.engine.sent = told ++ s.responses
      ∧ ∀ i, s.position i
          = (executedIn i true told : Int) - executedIn i false told
        ∧ s.exchangePosition i
          = (executedIn i true (answersTo c s.engine.sent) : Int)
            - executedIn i false (answersTo c s.engine.sent) := by
  obtain ⟨told, htold⟩ := told_of_run hmoderate h
  refine ⟨told, htold.answers, fun i => ⟨htold.position i, ?_⟩⟩
  have huntold : ∀ b, s.untold i b = executedIn i b s.responses :=
    fun _ => rfl
  unfold exchangePosition
  rw [htold.answers, executedIn_append, executedIn_append, htold.position i,
    huntold, huntold]
  omega

/-- Of two fills the client has been told of one. -/
theorem settled_of_run_partFill : ∃ s told,
    Run (fun s a s' => Step s a s' ∧ Clean s a) (new 0 hundred) partFill s
      ∧ answersTo 0 s.engine.sent = told ++ s.responses
      ∧ (executedIn Session.firstTicker true told : Int)
        - executedIn Session.firstTicker false told = 4
      ∧ (executedIn Session.firstTicker true (answersTo 0 s.engine.sent) : Int)
        - executedIn Session.firstTicker false (answersTo 0 s.engine.sent)
          = 7 := by
  obtain ⟨s, hrun, hknown, hexecuted, -⟩ := run_partFill
  obtain ⟨told, hanswers, hsettled⟩ := settled_of_run moderate_hundred hrun
  obtain ⟨hposition, hexchange⟩ := hsettled Session.firstTicker
  rw [hknown] at hposition
  rw [hexecuted] at hexchange
  exact ⟨s, told, hrun, hanswers, hposition.symm, hexchange.symm⟩

end TradingSession

end ElectronicTrading
