/-
Whether an order can be found again: `cid_oid_to_order` against the
order lists.

The index has one entry for a client and a client order id. `addOrder`
writes it without looking, `removeOrder` erases it without looking, and
a client may use an id again while an order under it rests. So the index
never lies (`Stored.index`), but it may have lost an order.

`cancellable_iff_found` turns the answers to CANCELs into a statement
about the entries, `found_iff` says when a step loses one: it takes an
order out of the book and leaves another under the same ids. With
`Run.always_iff` the two give `cancellable_iff_unorphaned`.
-/
import ElectronicTrading.Exchange.Proofs.Steps

namespace ElectronicTrading

open PriceTime Reference Runs

namespace Reference

/-- The order was submitted by this client under this id. -/
def Under (c : ClientID) (oid : OrderID) (r : Resting OrderIds) : Prop :=
  r.key.clientId = c ∧ r.key.clientOrderId = oid

instance (c : ClientID) (oid : OrderID) :
    DecidablePred (Under c oid) := fun r => by
  unfold Under
  infer_instance

/-- An order of this client under this id rests. -/
def RestsUnder (book : Book) (c : ClientID) (oid : OrderID) : Prop :=
  ∃ b, ∃ r ∈ book b, Under c oid r

/-- How many of them. -/
def restingUnder (book : Book) (c : ClientID) (oid : OrderID) : Nat :=
  (book true).countP (Under c oid) + (book false).countP (Under c oid)

theorem restsUnder_iff {book : Book} {c : ClientID} {oid : OrderID} :
    RestsUnder book c oid ↔ 0 < restingUnder book c oid := by
  unfold RestsUnder restingUnder
  rw [Nat.add_pos_iff_pos_or_pos, List.countP_pos_iff, List.countP_pos_iff]
  simp only [Bool.exists_bool, decide_eq_true_eq]
  exact Or.comm

/-- Taking one of them out leaves one less. -/
theorem restingUnder_take {book book' : Book} {c : ClientID} {oid : OrderID}
    {b : Bool} {x : Resting OrderIds} (hx : Under c oid x)
    (h : ∃ l m, book b = l ++ x :: m ∧ book' b = l ++ m)
    (hother : ∀ d, d ≠ b → book' d = book d) :
    restingUnder book c oid = restingUnder book' c oid + 1 := by
  obtain ⟨l, m, hbook, hbook'⟩ := h
  have hcount : (book b).countP (Under c oid)
      = (book' b).countP (Under c oid) + 1 := by
    have hcons : (x :: m).countP (Under c oid)
        = m.countP (Under c oid) + 1 :=
      List.countP_cons_of_pos (decide_eq_true hx)
    rw [hbook, hbook', List.countP_append, List.countP_append, hcons,
      Nat.add_assoc]
  unfold restingUnder
  cases b with
  | true =>
      rw [hcount, hother false (by decide)]
      omega
  | false =>
      rw [hcount, hother true (by decide)]
      omega

end Reference

namespace MatchingEngineOrderBook

-- ================================================================= answers

/-- The book answers `r` by CANCELLED. -/
def AnswersCancelled (s : MatchingEngineOrderBook)
    (r : MatchingEngineClientRequest) : Prop :=
  ∃ s' added response, Processed s r s' ∧ s'.sent = s.sent ++ added
    ∧ .response response ∈ added ∧ response.type = .cancelled

/-- A CANCEL is answered by CANCELLED exactly if an order of its client
under its id rests. -/
def Cancellable (s : MatchingEngineOrderBook) : Prop :=
  ∀ r, Valid r → r.type = .cancel →
    (AnswersCancelled s r ↔ RestsUnder s.book r.clientId r.orderId)

/-- Every resting order's ids have an entry. -/
def Found (s : MatchingEngineOrderBook) : Prop :=
  ∀ b, ∀ x ∈ s.book b,
    s.cidOidToOrder x.key.clientId x.key.clientOrderId ≠ none

variable {s s' : MatchingEngineOrderBook} {lay : Layout}
  {r : MatchingEngineClientRequest}

/-- The answer is CANCELLED if the index has an entry. -/
theorem answersCancelled_iff (h : Stored s lay) (hv : Valid r)
    (hcancel : r.type = .cancel) :
    AnswersCancelled s r ↔ s.cidOidToOrder r.clientId r.orderId ≠ none := by
  constructor
  · rintro ⟨s', added, response, hp, hsent, hmem, htype⟩ hnone
    rcases step_cases h hv hp (fun hnew => by
      rw [hcancel] at hnew
      cases hnew) with ⟨hnew, -⟩ | ⟨-, -, rfl⟩ | ⟨-, hsome, -⟩
    · rw [hcancel] at hnew
      cases hnew
    · rw [List.append_cancel_left hsent.symm, List.mem_singleton] at hmem
      cases hmem
      cases htype
    · exact hsome hnone
  · intro hsome
    rcases cancel_spec h r.tickerId hv.range with
      ⟨hnone, -⟩ | ⟨-, s', lay', b, x, hrun, hafter⟩
    · exact absurd hnone hsome
    · refine ⟨s', _, _, ?_, hafter.sent,
        List.mem_cons_of_mem _ (List.mem_singleton_self _), rfl⟩
      unfold Processed
      rw [run_cancel hcancel]
      exact hrun

/-- The index has entries only for resting orders. -/
theorem Stored.restsUnder (h : Stored s lay) {c : ClientID} {oid : OrderID}
    (hentry : s.cidOidToOrder c oid ≠ none) : RestsUnder s.book c oid := by
  obtain ⟨p, hp⟩ := Option.ne_none_iff_exists'.1 hentry
  obtain ⟨hhas, howned⟩ := h.index c oid p hp
  obtain ⟨b, hb⟩ := (h.booked.laid.hasOrder_iff p).1 hhas
  refine ⟨b, s.ladder.resting p, ?_, howned⟩
  rw [h.book_eq]
  exact List.mem_map_of_mem hb

/-- The ids of a resting order are in range. -/
theorem Stored.inRange (h : Stored s lay) {b : Bool} {x : Resting OrderIds}
    (hx : x ∈ s.book b) :
    inRange x.key.clientId x.key.clientOrderId = true := by
  rw [h.book_eq] at hx
  obtain ⟨p, hp, rfl⟩ := List.mem_map.1 hx
  exact h.ranges p ((h.booked.laid.hasOrder_iff p).2 ⟨b, hp⟩)

/-- The answers are right exactly if no entry is missing. -/
theorem cancellable_iff_found (h : Stored s lay) :
    Cancellable s ↔ Found s := by
  constructor
  · intro hall b x hx
    have hv : Valid { type := .cancel, clientId := x.key.clientId,
                      orderId := x.key.clientOrderId } :=
      ⟨Or.inr rfl, nofun, h.inRange hx⟩
    exact (answersCancelled_iff h hv rfl).1
      ((hall _ hv rfl).2 ⟨b, x, hx, rfl, rfl⟩)
  · intro hfound r hv hcancel
    rw [answersCancelled_iff h hv hcancel]
    refine ⟨h.restsUnder, ?_⟩
    intro h
    obtain ⟨b, x, hx, hclient, hid⟩ := h
    have hentry := hfound b x hx
    rwa [hclient, hid] at hentry

-- =================================================================== a step

/-- The request takes an order out of the book and leaves another one
under its ids. For a NEW: it uses up an order and another one is left
under these ids, unless what is left of the NEW comes to rest under
them. -/
def Orphans (s : MatchingEngineOrderBook) (r : MatchingEngineClientRequest) :
    Prop :=
  (r.type = .cancel ∧ 2 ≤ restingUnder s.book r.clientId r.orderId)
    ∨ (r.type = .new ∧ ∃ c oid,
      UsedUp ((s.incoming r).swept s.book).trades c oid
        ∧ RestsUnder ((s.incoming r).sweptBook s.book) c oid
        ∧ ¬ (((s.incoming r).swept s.book).left ≠ 0
          ∧ r.clientId = c ∧ r.orderId = oid))

/-- A NEW loses an entry exactly if it orphans an order. -/
theorem found_iff_of_new {lay' : Layout} (hfound : Found s)
    (hnew : r.type = .new) (hafter : AfterAdd (s.incoming r) s s' lay') :
    Found s' ↔ ¬ Orphans s r := by
  have hindex : ∀ c oid, ¬ (((s.incoming r).swept s.book).left ≠ 0
      ∧ r.clientId = c ∧ r.orderId = oid) →
      s'.cidOidToOrder c oid
        = if UsedUp ((s.incoming r).swept s.book).trades c oid then none
          else s.cidOidToOrder c oid := by
    intro c oid hno
    refine hafter.index c oid ?_
    by_cases hleft : ((s.incoming r).swept s.book).left = 0
    · exact Or.inl hleft
    · exact Or.inr fun hids => hno ⟨hleft, hids⟩
  constructor
  · intro hfound' h
    rcases h with ⟨hcancel, -⟩ | ⟨-, c, oid, hused, ⟨b, x, hx, hids⟩, hno⟩
    · rw [hnew] at hcancel
      cases hcancel
    · have hmem : x ∈ s'.book b := by
        rw [hafter.book]
        unfold Incoming.apply
        split
        · next hb =>
            refine mem_place.2 (Or.inr ?_)
            unfold Incoming.sweptBook at hx
            rwa [if_pos hb.1] at hx
        · exact hx
      have hentry := hfound' b x hmem
      rw [hids.1, hids.2, hindex c oid hno, if_pos hused] at hentry
      exact hentry rfl
  · intro horphans b x hx
    by_cases hown : ((s.incoming r).swept s.book).left ≠ 0
        ∧ r.clientId = x.key.clientId ∧ r.orderId = x.key.clientOrderId
    · rw [← hown.2.1, ← hown.2.2]
      exact hafter.rested hown.1
    · rw [hafter.book] at hx
      rcases Incoming.mem_apply hx with ⟨-, hleft, rfl⟩ | hx
      · exact absurd ⟨hleft, rfl, rfl⟩ hown
      · rw [hindex _ _ hown, if_neg fun hused => horphans (Or.inr
          ⟨hnew, _, _, hused, ⟨b, x, hx, rfl, rfl⟩, hown⟩)]
        obtain ⟨y, hy, hcore⟩ := Incoming.exists_core hx
        rw [← (core_eq hcore).1]
        exact hfound b y hy

/-- A CANCEL loses an entry exactly if it orphans an order. -/
theorem found_iff_of_cancel {lay' : Layout} {b : Bool} {x : Resting OrderIds}
    (hfound : Found s) (hcancel : r.type = .cancel)
    (hafter : AfterCancel r.clientId r.orderId r.tickerId b x s s' lay') :
    Found s' ↔ ¬ Orphans s r := by
  have hcount := restingUnder_take hafter.owned hafter.book hafter.other
  have hsub : ∀ d, ∀ y ∈ s'.book d, y ∈ s.book d := by
    intro d y hy
    by_cases hd : d = b
    · obtain ⟨l, m, hbook, hbook'⟩ := hafter.book
      rw [hd, hbook'] at hy
      rw [hd, hbook]
      exact ((List.sublist_cons_self x m).append_left l).subset hy
    · rwa [hafter.other d hd] at hy
  constructor
  · intro hfound' h
    rcases h with ⟨-, htwo⟩ | ⟨hnew, -⟩
    · obtain ⟨d, y, hy, hids⟩ := restsUnder_iff.2
        (show 0 < restingUnder s'.book r.clientId r.orderId by omega)
      have hentry := hfound' d y hy
      rw [hafter.index, if_pos ⟨hids.1.symm, hids.2.symm⟩] at hentry
      exact hentry rfl
    · rw [hcancel] at hnew
      cases hnew
  · intro horphans d y hy
    rw [hafter.index, if_neg]
    · exact hfound d y (hsub d y hy)
    · intro hids
      have hpos := restsUnder_iff.1
        (⟨d, y, hy, hids.1.symm, hids.2.symm⟩ :
          RestsUnder s'.book r.clientId r.orderId)
      exact horphans (Or.inl ⟨hcancel, by omega⟩)

/-- A step keeps every entry exactly if it orphans no order. -/
theorem found_iff (h : Stored s lay) (hfound : Found s)
    (hstep : CleanStep s r s') : Found s' ↔ ¬ Orphans s r := by
  rcases step_cases h hstep.valid hstep.processed (hstep.free h) with
    ⟨hnew, lay', hafter⟩ | ⟨hcancel, hnone, rfl⟩ |
    ⟨hcancel, -, lay', b, x, hafter⟩
  · exact found_iff_of_new hfound hnew hafter
  · refine iff_of_true hfound ?_
    intro h
    rcases h with ⟨-, htwo⟩ | ⟨hnew, -⟩
    · obtain ⟨b, x, hx, hclient, hid⟩ := restsUnder_iff.2
        (Nat.lt_of_lt_of_le Nat.zero_lt_two htwo)
      have hentry := hfound b x hx
      rw [hclient, hid] at hentry
      exact hentry hnone
    · rw [hcancel] at hnew
      cases hnew
  · exact found_iff_of_cancel hfound hcancel hafter

-- ================================================================== the run

/-- CANCELs are answered rightly throughout a run exactly if no request of
it orphans an order. -/
theorem cancellable_iff_unorphaned {rs : List MatchingEngineClientRequest}
    (h : Run CleanStep new rs s) :
    (∀ rs' t, rs' <+: rs → Run CleanStep new rs' t → Cancellable t)
      ↔ Run (fun s r s' => CleanStep s r s' ∧ ¬ Orphans s r) new rs s := by
  refine h.always_iff (fun _ _ _ _ h₁ h₂ => h₁.processed.unique h₂.processed)
    ?_ ?_
  · refine (cancellable_iff_found stored_new).2 fun b x hx => ?_
    rw [book_new] at hx
    cases hx
  · intro rs s r s' hrun hs hstep
    obtain ⟨lay, hgood⟩ := good_of_cleanRun hrun
    obtain ⟨lay', hgood'⟩ := good_of_cleanRun (hrun.snoc hstep)
    rw [cancellable_iff_found hgood'.stored]
    exact found_iff hgood.stored
      ((cancellable_iff_found hgood.stored).1 hs) hstep

-- ------------------------------------------------------------ one id twice

/-- One lot to buy at 100, by client 0 under id 0. -/
def buyOne : MatchingEngineClientRequest where
  type := .new
  clientId := 0
  tickerId := 0
  orderId := 0
  side := .buy
  price := 100
  quantity := 1

/-- A CANCEL of it. -/
def cancelOne : MatchingEngineClientRequest where
  type := .cancel
  clientId := 0
  tickerId := 0
  orderId := 0

/-- Two lots under one id, and a CANCEL. -/
def reuse : List MatchingEngineClientRequest := [buyOne, buyOne, cancelOne]

/-- One lot still rests, and its ids have no entry. -/
theorem run_reuse : ∃ s, Run CleanStep new reuse s
    ∧ RestsUnder s.book 0 0 ∧ s.cidOidToOrder 0 0 = none := by
  obtain ⟨s, hrun, hrests, hnone⟩ := exists_cleanRun reuse
    (fun s => 0 < restingUnder s.book 0 0 ∧ s.cidOidToOrder 0 0 = none)
    (by decide +kernel)
  exact ⟨s, hrun, restsUnder_iff.2 hrests, hnone⟩

/-- The client's own CANCEL of the lot that rests is rejected. -/
theorem not_cancellable_reuse :
    ¬ ∀ rs s, Run CleanStep new rs s → Cancellable s := by
  intro hall
  obtain ⟨s, hrun, ⟨b, x, hx, hclient, hid⟩, hnone⟩ := run_reuse
  obtain ⟨lay, hgood⟩ := good_of_cleanRun hrun
  have hentry := (cancellable_iff_found hgood.stored).1 (hall _ _ hrun) b x hx
  rw [hclient, hid] at hentry
  exact hentry hnone

/-- The condition and the property on that run, both false. -/
theorem cancellable_iff_unorphaned_reuse : ∃ s, Run CleanStep new reuse s
    ∧ ((∀ rs' t, rs' <+: reuse → Run CleanStep new rs' t → Cancellable t)
      ↔ Run (fun s r s' => CleanStep s r s' ∧ ¬ Orphans s r) new reuse s) := by
  obtain ⟨s, hrun, -⟩ := run_reuse
  exact ⟨s, hrun, cancellable_iff_unorphaned hrun⟩

end MatchingEngineOrderBook

end ElectronicTrading
