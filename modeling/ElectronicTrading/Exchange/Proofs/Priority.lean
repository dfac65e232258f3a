/-
Price-time priority over a whole run.

`Ahead` orders two resting orders of a side: by price, and at one price by
when they were submitted, which the market order ids tell. A reachable
book's lists are in that order (`ahead_of_cleanRun`), so a sweep trades
with an order only when it has used up all those ahead of it
(`gone_of_traded`). An order keeps its side, price and id for as long as it
rests (`kept_of_cleanRun`). So of two orders that ever rest together, the
one behind is not executed before the one ahead is gone
(`gone_of_executed`), whatever was added, cancelled or filled in between.
-/
import ElectronicTrading.Exchange.Proofs.Conservation

namespace ElectronicTrading

open PriceTime Runs

namespace Reference

-- =================================================================== priority

/-- On the side `b`, `x` is served before `y`. -/
def Ahead (b : Bool) (x y : Resting OrderIds) : Prop :=
  Better b x.price y.price ∨ x.price = y.price
    ∧ x.key.marketOrderId.toNat < y.key.marketOrderId.toNat

variable {b : Bool} {x x' y y' : Resting OrderIds}

theorem Ahead.asymm (h : Ahead b x y) : ¬ Ahead b y x := by
  intro h'
  rcases h with h | ⟨hprice, hlt⟩
  · rcases h' with h' | ⟨hprice', -⟩
    · exact h.asymm h'
    · exact h.ne hprice'.symm
  · rcases h' with h' | ⟨-, hlt'⟩
    · exact h'.ne hprice.symm
    · exact Nat.lt_asymm hlt hlt'

/-- Quantities do not count. -/
theorem Ahead.congr (h : Ahead b x y) (hx : core x' = core x)
    (hy : core y' = core y) : Ahead b x' y' := by
  have hxeq := core_eq hx
  have hyeq := core_eq hy
  unfold Ahead at h ⊢
  rw [hxeq.1, hyeq.1, hxeq.2.2.1, hyeq.2.2.1]
  exact h

/-- A list that is sorted by price, and at one price by id. -/
theorem pairwise_ahead {l : List (Resting OrderIds)} (hsorted : Sorted b l)
    (hqueue : l.Pairwise fun x y => x.price = y.price →
      x.key.marketOrderId.toNat < y.key.marketOrderId.toNat) :
    l.Pairwise (Ahead b) := by
  refine hsorted.imp₂ (fun x y hnot hlt => ?_) hqueue
  by_cases hprice : x.price = y.price
  · exact Or.inr ⟨hprice, hlt hprice⟩
  · exact Or.inl (better_of_not hnot (Ne.symm hprice))

-- ================================================================== one sweep

/-- A sweep does not trade with an order it does not find. -/
theorem tradedWith_eq_zero {m : OrderID} {l : List (Resting OrderIds)}
    (h : ∀ x ∈ l, x.key.marketOrderId ≠ m) (b : Bool) (limit : Price)
    (leaves : Quantity) :
    tradedWith m (sweep b limit leaves l).trades = 0 := by
  have heach := (sweep_conserves b limit l leaves).2 m
  rw [quantityIn_eq_zero h] at heach
  omega

/-- A sweep that trades with an order leaves nothing of those ahead. -/
theorem gone_of_traded {c : Bool} {limit : Price}
    {l : List (Resting OrderIds)} (hpair : l.Pairwise (Ahead b))
    (hnodup : (l.map fun x => x.key.marketOrderId).Nodup)
    (hx : x ∈ l) (hy : y ∈ l) (hahead : Ahead b x y) :
    ∀ leaves,
      tradedWith y.key.marketOrderId (sweep c limit leaves l).trades ≠ 0 →
      ∀ z ∈ (sweep c limit leaves l).rest,
        z.key.marketOrderId ≠ x.key.marketOrderId := by
  induction l with
  | nil => cases hx
  | cons r rest ih =>
      intro leaves
      obtain ⟨hr, hpair⟩ := List.pairwise_cons.1 hpair
      obtain ⟨hfresh, hnodup⟩ := List.nodup_cons.1 hnodup
      have hne : ∀ z ∈ rest, z.key.marketOrderId ≠ r.key.marketOrderId := by
        intro z hz heq
        exact hfresh (List.mem_map.2 ⟨z, hz, heq⟩)
      have hrest : y ∈ rest := by
        rcases List.mem_cons.1 hy with rfl | hy
        · rcases List.mem_cons.1 hx with rfl | hx
          · exact (hahead.asymm hahead).elim
          · exact (hahead.asymm (hr x hx)).elim
        · exact hy
      rw [sweep]
      by_cases hdone : leaves = 0 ∨ crosses c limit r = false
      · rw [if_pos hdone]
        exact fun htraded => (htraded rfl).elim
      · rw [if_neg hdone]
        by_cases hzero : r.quantity - min r.quantity leaves = 0
        · simp only [hzero, if_true]
          rw [tradedWith_cons, if_neg (hne y hrest).symm, Nat.zero_add]
          rcases List.mem_cons.1 hx with rfl | hx
          · -- what is left are others
            intro _ z hz
            obtain ⟨w, hw, hcore⟩ := mem_of_mem_rest hz
            rw [← (core_eq hcore).1]
            exact hne w hw
          · exact ih hpair hnodup hx hrest _
        · -- the sweep ends with `r`, so it does not come to `y`
          simp only [hzero, if_false]
          rw [tradedWith_cons, if_neg (hne y hrest).symm]
          exact fun htraded => (htraded rfl).elim

-- ============================================================= the ledger's ids

variable {rs : List MatchingEngineClientRequest} {sent : List Sent}
  {book : Book}

theorem toNat_orderIdOf {k : Nat} (hk : k + 1 < 2 ^ 64) :
    (orderIdOf k).toNat = k + 1 := by
  unfold orderIdOf
  rw [UInt64.toNat_ofNat']
  omega

theorem Ledger.nodup_side (h : Ledger rs sent book) (b : Bool) :
    ((book b).map fun x => x.key.marketOrderId).Nodup := by
  refine List.Nodup.sublist (List.Sublist.map _ ?_) h.nodup
  cases b
  · exact List.sublist_append_right _ _
  · exact List.sublist_append_left _ _

/-- An id rests once, on one side. -/
theorem Ledger.unique (h : Ledger rs sent book) (hok : Ok book) {c : Bool}
    (hx : x ∈ book b) (hy : y ∈ book c)
    (hid : y.key.marketOrderId = x.key.marketOrderId) : c = b ∧ y = x := by
  have heq : y = x :=
    List.inj_on_of_nodup_map h.nodup (mem_onBook hy) (mem_onBook hx) hid
  refine ⟨sideOf_injective ?_, heq⟩
  rw [← hok.side c y hy, ← hok.side b x hx, heq]

/-- The next id is larger than those at rest. -/
theorem Ledger.lt_next (h : Ledger rs sent book)
    (hcount : (submitted rs).length + 1 < 2 ^ 64) (hx : x ∈ book b) :
    x.key.marketOrderId.toNat < (orderIdOf (submitted rs).length).toNat := by
  obtain ⟨k, hk, hid⟩ := h.resting x (mem_onBook hx)
  rw [hid, toNat_orderIdOf (by omega), toNat_orderIdOf hcount]
  exact Nat.succ_lt_succ hk

end Reference

namespace MatchingEngineOrderBook

open Reference

variable {rs rs' : List MatchingEngineClientRequest}
  {s s' t : MatchingEngineOrderBook} {r : MatchingEngineClientRequest}

-- ====================================================================== a step

/-- Where an order comes from that rests after a step. -/
theorem origin_of_cleanStep {lay : Layout} (hgood : Good s lay)
    (h : CleanStep s r s') {b : Bool} {z : Resting OrderIds}
    (hz : z ∈ s'.book b) : (∃ w ∈ s.book b, core w = core z)
      ∨ r.type = .new ∧ z.key.marketOrderId = s.nextMarketOrderId := by
  rcases step_cases hgood.stored h.valid h.processed (h.free hgood.stored) with
    ⟨hnew, lay', hafter⟩ | ⟨-, -, rfl⟩ | ⟨-, -, lay', c, x, hafter⟩
  · rw [hafter.book] at hz
    rcases Incoming.mem_apply hz with ⟨-, -, rfl⟩ | hz
    · exact Or.inr ⟨hnew, rfl⟩
    · exact Or.inl (Incoming.exists_core hz)
  · exact Or.inl ⟨z, hz, rfl⟩
  · refine Or.inl ⟨z, ?_, rfl⟩
    by_cases hb : b = c
    · subst hb
      obtain ⟨l, m, hbefore, hbook⟩ := hafter.book
      rw [hbook] at hz
      rw [hbefore]
      exact ((List.Sublist.refl l).append (List.sublist_cons_self x m)).subset
        hz
    · rw [hafter.other b hb] at hz
      exact hz

/-- A step that executes an order of before trades with it, where it
rests. -/
theorem traded_of_cleanStep {lay : Layout} (hgood : Good s lay)
    (h : CleanStep s r s') {m : OrderID} (hold : s.nextMarketOrderId ≠ m)
    (hexecuted : executed m s.sent < executed m s'.sent) : ∃ i : Incoming,
      s'.book = i.apply s.book ∧ tradedWith m (i.swept s.book).trades ≠ 0
        ∧ ∃ y ∈ s.book (!i.isBuy), y.key.marketOrderId = m := by
  rcases step_cases hgood.stored h.valid h.processed (h.free hgood.stored) with
    ⟨-, lay', hafter⟩ | ⟨-, -, rfl⟩ | ⟨-, -, lay', c, x, hafter⟩
  · have hother : (s.incoming r).ids.marketOrderId ≠ m := hold
    have htraded : tradedWith m ((s.incoming r).swept s.book).trades ≠ 0 := by
      intro hzero
      rw [hafter.sent, executed_append, executed_messages, hzero,
        if_neg hother] at hexecuted
      exact Nat.lt_irrefl _ hexecuted
    refine ⟨s.incoming r, hafter.book, htraded, ?_⟩
    by_contra hnone
    exact htraded (tradedWith_eq_zero
      (fun y hy hid => hnone ⟨y, hy, hid⟩) _ _ _)
  · rw [executed_append] at hexecuted
    exact (Nat.lt_irrefl _ hexecuted).elim
  · rw [hafter.sent, executed_append] at hexecuted
    exact (Nat.lt_irrefl _ hexecuted).elim

-- ======================================================================== runs

/-- The orders of a reachable book are in the order in which they are
served. -/
theorem ahead_of_cleanRun (h : Run CleanStep new rs s)
    (hcount : (submitted rs).length < 2 ^ 64) (b : Bool) :
    (s.book b).Pairwise (Ahead b) := by
  have hqueue : (submitted rs).length < 2 ^ 64 → ∀ b,
      (s.book b).Pairwise fun x y => x.price = y.price →
        x.key.marketOrderId.toNat < y.key.marketOrderId.toNat := by
    refine h.induct (I := fun rs s => (submitted rs).length < 2 ^ 64 → ∀ b,
      (s.book b).Pairwise fun x y => x.price = y.price →
        x.key.marketOrderId.toNat < y.key.marketOrderId.toNat) ?_ ?_
    · intro _ b
      rw [book_new]
      exact .nil
    · intro rs s r s' hrun hqueue hstep hcount b
      obtain ⟨lay, hgood⟩ := good_of_cleanRun hrun
      obtain ⟨hnext, hledger⟩ := ledger_of_cleanRun hrun
      rcases step_cases hgood.stored hstep.valid hstep.processed
          (hstep.free hgood.stored) with
        ⟨hnew, lay', hafter⟩ | ⟨hcancel, -, rfl⟩ |
        ⟨hcancel, -, lay', c, x, hafter⟩
      · rw [submitted_snoc, if_pos hnew, List.length_append,
          List.length_singleton] at hcount
        have hbefore := hqueue (by omega)
        rw [hafter.book]
        unfold Incoming.apply
        split
        · -- the newcomer has the largest id
          refine pairwise_place (hgood.ok.sorted b) (hbefore b) fun q hq _ => ?_
          show _ < s.nextMarketOrderId.toNat
          rw [hnext]
          exact (hledger (by omega)).lt_next hcount hq
        · unfold Incoming.sweptBook
          split
          · exact hbefore b
          · exact Pairwise.sweep_rest (fun _ _ => Iff.rfl) (hbefore _)
      · rw [submitted_of_ne (by rw [hcancel]; decide)] at hcount
        exact hqueue hcount b
      · rw [submitted_of_ne (by rw [hcancel]; decide)] at hcount
        have hbefore := hqueue hcount b
        by_cases hb : b = c
        · subst hb
          obtain ⟨l, m, hsplit, hbook⟩ := hafter.book
          rw [hsplit] at hbefore
          rw [hbook]
          exact hbefore.sublist
            ((List.Sublist.refl l).append (List.sublist_cons_self x m))
        · rw [hafter.other b hb]
          exact hbefore
  obtain ⟨lay, hgood⟩ := good_of_cleanRun h
  exact pairwise_ahead (hgood.ok.sorted b) (hqueue hcount b)

theorem submitted_append (rs rs' : List MatchingEngineClientRequest) :
    submitted (rs ++ rs') = submitted rs ++ submitted rs' := by
  unfold submitted
  rw [List.filter_append, List.map_append]

/-- An order of before does not have the next id. -/
theorem next_ne_of_cleanRun (h : Run CleanStep new rs s) {b : Bool}
    {x : Resting OrderIds} (hx : x ∈ s.book b) (hlater : Run CleanStep s rs' t)
    (hcount : (submitted (rs ++ rs')).length < 2 ^ 64) :
    t.nextMarketOrderId ≠ x.key.marketOrderId := by
  obtain ⟨hnext, -⟩ := ledger_of_cleanRun (h.append hlater)
  obtain ⟨-, hledger⟩ := ledger_of_cleanRun h
  have hlength : (submitted rs).length + (submitted rs').length
      = (submitted (rs ++ rs')).length := by
    rw [submitted_append, List.length_append]
  obtain ⟨k, hk, hid⟩ := (hledger (by omega)).resting x (mem_onBook hx)
  rw [hnext, hid]
  intro heq
  have := orderIdOf_injective hcount (by omega) heq
  omega

/-- An order keeps its side, price and id as long as it rests. -/
theorem kept_of_cleanRun (h : Run CleanStep new rs s) {b : Bool}
    {x : Resting OrderIds} (hx : x ∈ s.book b) (hlater : Run CleanStep s rs' t)
    (hcount : (submitted (rs ++ rs')).length < 2 ^ 64) {c : Bool}
    {z : Resting OrderIds} (hz : z ∈ t.book c)
    (hid : z.key.marketOrderId = x.key.marketOrderId) :
    c = b ∧ core z = core x := by
  induction hlater generalizing c z with
  | nil =>
      rw [List.append_nil] at hcount
      obtain ⟨lay, hgood⟩ := good_of_cleanRun h
      obtain ⟨hc, rfl⟩ :=
        ((ledger_of_cleanRun h).2 hcount.le).unique hgood.ok hx hz hid
      exact ⟨hc, rfl⟩
  | @snoc rs' t r t' hrun hstep ih =>
      have hless : (submitted (rs ++ rs')).length < 2 ^ 64 := by
        rw [← List.append_assoc, submitted_append, List.length_append]
          at hcount
        omega
      obtain ⟨lay, hgood⟩ := good_of_cleanRun (h.append hrun)
      rcases origin_of_cleanStep hgood hstep hz with
        ⟨w, hw, hcore⟩ | ⟨-, hnext⟩
      · have hkey := (core_eq hcore).1
        obtain ⟨hc, hwx⟩ := ih hless hw (by rw [hkey]; exact hid)
        exact ⟨hc, hcore.symm.trans hwx⟩
      · exact (next_ne_of_cleanRun h hx hrun hless
          (hnext.symm.trans hid)).elim

/-- Of two orders that rest together, the one behind is not executed before
the one ahead is gone. -/
theorem gone_of_executed (h : Run CleanStep new rs s) {b : Bool}
    {x y : Resting OrderIds} (hx : x ∈ s.book b) (hy : y ∈ s.book b)
    (hahead : Ahead b x y) (hlater : Run CleanStep s rs' t)
    (hcount : (submitted (rs ++ rs')).length < 2 ^ 64)
    (hexecuted : executed y.key.marketOrderId s.sent
      < executed y.key.marketOrderId t.sent) :
    ∀ c, ∀ z ∈ t.book c, z.key.marketOrderId ≠ x.key.marketOrderId := by
  induction hlater with
  | nil => exact (Nat.lt_irrefl _ hexecuted).elim
  | @snoc rs' t r t' hrun hstep ih =>
      have hless : (submitted (rs ++ rs')).length < 2 ^ 64 := by
        rw [← List.append_assoc, submitted_append, List.length_append]
          at hcount
        omega
      have hall := h.append hrun
      obtain ⟨lay, hgood⟩ := good_of_cleanRun hall
      have hledger := (ledger_of_cleanRun hall).2 hless.le
      -- an order that is gone stays so
      have hstays : (∀ c, ∀ z ∈ t.book c,
          z.key.marketOrderId ≠ x.key.marketOrderId) →
          ∀ c, ∀ z ∈ t'.book c,
            z.key.marketOrderId ≠ x.key.marketOrderId := by
        intro hgone c z hz hid
        rcases origin_of_cleanStep hgood hstep hz with
          ⟨w, hw, hcore⟩ | ⟨-, hnext⟩
        · rw [← (core_eq hcore).1] at hid
          exact hgone c w hw hid
        · exact next_ne_of_cleanRun h hx hrun hless
            (hnext.symm.trans hid)
      by_cases hbefore : executed y.key.marketOrderId s.sent
          < executed y.key.marketOrderId t.sent
      · exact hstays (ih hless hbefore)
      by_cases hgone : ∀ c, ∀ z ∈ t.book c,
          z.key.marketOrderId ≠ x.key.marketOrderId
      · exact hstays hgone
      -- both rest before the step, which trades with the one behind
      obtain ⟨i, hbook, htraded, y', hy', hyid⟩ := traded_of_cleanStep hgood
        hstep (next_ne_of_cleanRun h hy hrun hless) (by omega)
      obtain ⟨c, x', hx', hxid⟩ : ∃ c, ∃ z ∈ t.book c,
          z.key.marketOrderId = x.key.marketOrderId := by
        simpa only [not_forall, not_not, exists_prop] using hgone
      obtain ⟨rfl, hxcore⟩ := kept_of_cleanRun h hx hrun hless hx' hxid
      obtain ⟨rfl, hycore⟩ := kept_of_cleanRun h hy hrun hless hy' hyid
      intro d z hz hid
      obtain ⟨rfl, -⟩ :=
        kept_of_cleanRun h hx (hrun.snoc hstep) hcount hz hid
      rw [hbook, Incoming.apply_opposite] at hz
      rw [← hyid] at htraded
      refine gone_of_traded (ahead_of_cleanRun hall hless _)
        (hledger.nodup_side _) hx' hy' (hahead.congr hxcore hycore) _ htraded
        z hz (hid.trans hxid.symm)

/-- Two bids at 100, then an offer of both. -/
def twoBids : List MatchingEngineClientRequest :=
  [{ type := .new, clientId := 0, tickerId := 0, orderId := 0, side := .buy,
     price := 100, quantity := 1 },
   { type := .new, clientId := 1, tickerId := 0, orderId := 0, side := .buy,
     price := 100, quantity := 1 }]

def offerOfTwo : MatchingEngineClientRequest :=
  { type := .new, clientId := 2, tickerId := 0, orderId := 0, side := .sell,
    price := 100, quantity := 2 }

theorem run_twoBids : ∃ s t x y, Run CleanStep new twoBids s
    ∧ Run CleanStep s [offerOfTwo] t ∧ x ∈ s.book true ∧ y ∈ s.book true
    ∧ Ahead true x y ∧ executed y.key.marketOrderId s.sent
      < executed y.key.marketOrderId t.sent := by
  have heval : (match (processClientRequest twoBids[0]).run new with
      | .error _ _ => false
      | .ok _ u => match (processClientRequest twoBids[1]).run u with
        | .error _ _ => false
        | .ok _ s => match (processClientRequest offerOfTwo).run s with
          | .error _ _ => false
          | .ok _ t => decide ((∀ b, ∀ r ∈ u.book b, r.price = 100)
            ∧ (∀ b, ∀ r ∈ s.book b, r.price = 100)
            ∧ (∀ b, ∀ r ∈ t.book b, r.price = 100)
            ∧ ∃ x ∈ s.book true, ∃ y ∈ s.book true, x.price = y.price
              ∧ x.key.marketOrderId.toNat < y.key.marketOrderId.toNat
              ∧ executed y.key.marketOrderId s.sent
                < executed y.key.marketOrderId t.sent)) = true := by
    decide +kernel
  have hslots : ∀ {s : MatchingEngineOrderBook},
      (∀ b, ∀ r ∈ s.book b, r.price = 100) → Reference.OnePerSlot s.book := by
    intro s h b c r hr r' hr' _
    rw [h b r hr, h c r' hr']
  cases h₁ : (processClientRequest twoBids[0]).run new with
  | error e t => rw [h₁] at heval; cases heval
  | ok _ u =>
      rw [h₁] at heval
      cases h₂ : (processClientRequest twoBids[1]).run u with
      | error e t => simp only [h₂] at heval; cases heval
      | ok _ s =>
          simp only [h₂] at heval
          cases h₃ : (processClientRequest offerOfTwo).run s with
          | error e t => simp only [h₃] at heval; cases heval
          | ok _ t =>
              simp only [h₃] at heval
              obtain ⟨hu, hs, ht, x, hx, y, hy, hprice, hlt, hexecuted⟩ :=
                of_decide_eq_true heval
              have hfirst : Valid twoBids[0] :=
                ⟨Or.inl rfl, fun _ => Or.inl rfl, by decide⟩
              have hsecond : Valid twoBids[1] :=
                ⟨Or.inl rfl, fun _ => Or.inl rfl, by decide⟩
              have hthird : Valid offerOfTwo :=
                ⟨Or.inl rfl, fun _ => Or.inr rfl, by decide⟩
              exact ⟨s, t, x, y,
                (Run.nil.snoc ⟨hfirst, h₁, hslots hu⟩).snoc
                  ⟨hsecond, h₂, hslots hs⟩,
                Run.nil.snoc ⟨hthird, h₃, hslots ht⟩, hx, hy,
                Or.inr ⟨hprice, hlt⟩, hexecuted⟩

/-- The first is gone once the second is filled. -/
theorem gone_of_executed_twoBids : ∃ s t x y, Run CleanStep new twoBids s
    ∧ Run CleanStep s [offerOfTwo] t ∧ x ∈ s.book true ∧ y ∈ s.book true
    ∧ Ahead true x y ∧ executed y.key.marketOrderId s.sent
      < executed y.key.marketOrderId t.sent
    ∧ ∀ c, ∀ z ∈ t.book c, z.key.marketOrderId ≠ x.key.marketOrderId := by
  obtain ⟨s, t, x, y, hrun, hlater, hx, hy, hahead, hexecuted⟩ := run_twoBids
  exact ⟨s, t, x, y, hrun, hlater, hx, hy, hahead, hexecuted,
    gone_of_executed hrun hx hy hahead hlater (by decide) hexecuted⟩

end MatchingEngineOrderBook

end ElectronicTrading
