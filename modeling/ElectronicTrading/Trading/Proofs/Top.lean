/-
`getBBO` against the top of the book.

`onMarketUpdate` decides before it changes the book whether to read a
side's top anew: when the side has a best level and the update is at its
price or better (`atTop`). That is right for every update but two. An
ADD to an empty side is not read, since there is no best level yet: the
BBO of that side stays as it was until an update at its top comes
(`Watched.stale` keeps track). A CLEAR names no side, so it is never
read.

`isTop_iff_not_stale` says when the BBO is the top of the book, for
feeds that clear only an empty book (clearing another one leaves the
slots as they are, which is a matter of its own).
-/
import ElectronicTrading.Lib.Runs
import ElectronicTrading.Trading.Proofs.Mirror

namespace ElectronicTrading

open PriceTime Runs Exec

namespace MarketOrderBook

-- ================================================================ the top

/-- The best price of a side's orders and the sum of the quantities
there, or the invalid ones when there are none. -/
def IsTop (b : Bool) (l : List (Resting OrderID)) (top : Price × Quantity) :
    Prop :=
  (l = [] ∧ top = (priceInvalid, quantityInvalid))
    ∨ ((∃ x ∈ l, x.price = top.1) ∧ (∀ x ∈ l, ¬ Better b x.price top.1)
      ∧ top.2.toNat
        = ((l.filter (·.price = top.1)).map (·.quantity.toNat)).sum)

/-- The top of a list in priority, on machine integers. -/
def top : List (Resting OrderID) → Price × Quantity
  | [] => (priceInvalid, quantityInvalid)
  | x :: l => (x.price,
      (((x :: l).filter (·.price = x.price)).map (·.quantity)).sum)

/-- A sum of machine integers is the exact one modulo 2^32. -/
theorem toNat_sum_mod (l : List Quantity) :
    l.sum.toNat = (l.map (·.toNat)).sum % 2 ^ 32 := by
  induction l with
  | nil => rfl
  | cons q l ih =>
      rw [List.sum_cons, UInt32.toNat_add, ih, List.map_cons, List.sum_cons,
        Nat.add_mod_mod]

/-- Exact if it fits. -/
theorem toNat_sum {l : List Quantity}
    (h : (l.map (·.toNat)).sum < 2 ^ 32) :
    l.sum.toNat = (l.map (·.toNat)).sum := by
  rw [toNat_sum_mod, Nat.mod_eq_of_lt h]

/-- The first order is at the top. -/
theorem isTop_top {b : Bool} {l : List (Resting OrderID)}
    (h : Sorted b l) (hsum : ∀ price,
      ((l.filter (·.price = price)).map (·.quantity.toNat)).sum < 2 ^ 32) :
    IsTop b l (top l) := by
  cases l with
  | nil => exact Or.inl ⟨rfl, rfl⟩
  | cons x l =>
      refine Or.inr ⟨⟨x, List.mem_cons_self .., rfl⟩, ?_, ?_⟩
      · intro y hy
        rcases List.mem_cons.1 hy with rfl | hy
        · exact fun hb => hb.ne rfl
        · exact (List.pairwise_cons.1 h).1 y hy
      · have hlt := hsum x.price
        simp only [top]
        rw [toNat_sum (by rwa [List.map_map]), List.map_map]
        rfl

/-- `updateBBO` reads the top. -/
theorem Mirror.topOf_eq {s : MarketOrderBook} {lay : Layout}
    (h : Mirror s lay) (b : Bool) : topOf (s.book b) = top (s.book b) := by
  have hlevels := h.booked.levelsOf_eq b
  have hlist := h.booked.laid.restingOrders_eq b
  show topOf (s.ladder.restingOrders b) = top (s.ladder.restingOrders b)
  unfold topOf
  rw [hlevels]
  unfold Layout.orders at hlist
  cases hl : lay.levels b with
  | nil =>
      rw [hl] at hlist
      rw [hlist]
      rfl
  | cons p rest =>
      have hp : p ∈ lay.levels b := by
        rw [hl]
        exact List.mem_cons_self ..
      obtain ⟨a, q, hq⟩ := List.exists_cons_of_ne_nil
        (h.booked.laid.queues.nonempty p ⟨b, hp⟩)
      have hprice := (h.booked.matched p a
        (by rw [hq]; exact List.mem_cons_self ..)).2
      have hfilter := h.booked.filter_price hp
      rw [hl, List.flatMap_cons, hq, List.cons_append, List.map_cons] at hlist
      rw [← hprice] at hfilter
      have htop : top (s.ladder.restingOrders b)
          = ((s.ladder.resting a).price,
            (((s.ladder.restingOrders b).filter
              (·.price = (s.ladder.resting a).price)).map
                (·.quantity)).sum) := by
        rw [hlist]
        rfl
      rw [htop, hfilter, List.map_cons, hq]
      rfl

-- ------------------------------------------------- changes below the top

/-- An order placed below the top. -/
theorem top_place {b : Bool} {x r : Resting OrderID}
    {l : List (Resting OrderID)} (h : Sorted b (x :: l))
    (hr : Better b x.price r.price) :
    top (place b r (x :: l)) = top (x :: l) := by
  obtain ⟨m, n, hsplit, hplace, -, hn⟩ := exists_place h r
  rw [hplace, hsplit]
  cases m with
  | nil =>
      rw [List.nil_append] at hsplit
      exact absurd (hn x (by rw [← hsplit]; exact List.mem_cons_self ..))
        hr.asymm
  | cons y m =>
      cases hsplit
      have hne : r.price ≠ x.price := hr.ne.symm
      simp [top, hne]

/-- An order below the top taken out or changed in quantity. -/
theorem top_split {b : Bool} {x : Resting OrderID}
    {l m mid : List (Resting OrderID)} (h : Sorted b (l ++ x :: m))
    (hmid : ∀ y ∈ mid, y.price = x.price)
    (hbelow : ∀ y, (l ++ x :: m).head? = some y → Better b y.price x.price) :
    top (l ++ mid ++ m) = top (l ++ x :: m) := by
  cases l with
  | nil => exact absurd rfl (hbelow x rfl).ne
  | cons y l =>
      have hne := (hbelow y rfl).ne.symm
      have hnil : mid.filter (·.price = y.price) = [] := by
        rw [List.filter_eq_nil_iff]
        intro z hz
        rw [hmid z hz, decide_eq_true_eq]
        exact hne
      simp [top, hne, hnil]

-- =============================================================== the feed

/-- An update as the exchange emits it, for the orders it has told of. Its
own pools have room for an order it adds, and no two of its prices
share a slot. -/
inductive Emitted (book : Bool → List (Resting OrderID))
    (u : MatchingEngineMarketUpdate) : Prop
  | add (b : Bool) (type : u.type = .add) (side : u.side = sideOf b)
      (range : InRange u.orderId)
      (fresh : ∀ c, ∀ x ∈ book c, x.key ≠ u.orderId)
      (slot : ∀ c, ∀ x ∈ book c, priceToIndex x.price = priceToIndex u.price →
        c = b ∧ x.price = u.price)
      (room : ¬ Ladder.Full book u.price)
  | modify (b : Bool) (x : Resting OrderID) (type : u.type = .modify)
      (mem : x ∈ book b) (key : x.key = u.orderId) (side : u.side = sideOf b)
      (price : u.price = x.price)
  | cancel (b : Bool) (x : Resting OrderID) (type : u.type = .cancel)
      (mem : x ∈ book b) (key : x.key = u.orderId) (side : u.side = sideOf b)
      (price : u.price = x.price)
  | clear (type : u.type = .clear)

/-- A book, and for each side whether its BBO is stale: the side got its
first order and no update has come to its top since. -/
structure Watched where
  book : MarketOrderBook
  stale : Bool → Bool

namespace Watched

def new : Watched where
  book := .new
  stale := fun _ => false

/-- The order lists of the book. -/
def lists (w : Watched) : Bool → List (Resting OrderID) := w.book.book

/-- What the update makes of `stale`. -/
def staleAfter (w : Watched) (u : MatchingEngineMarketUpdate) (b : Bool) :
    Bool :=
  if atTop b (w.lists b) u then false
  else if u.type = .add ∧ u.side = sideOf b ∧ w.lists b = [] then true
  else w.stale b

/-- One update of the feed; a CLEAR comes to an empty book. -/
structure Fed (w : Watched) (u : MatchingEngineMarketUpdate) (w' : Watched) :
    Prop where
  emitted : Emitted w.lists u
  cleared : u.type = .clear → ∀ b, w.lists b = []
  updated : ∃ notice, (onMarketUpdate u).run w.book = .ok notice w'.book
  stale : w'.stale = w.staleAfter u

/-- What the BBO is between updates. -/
structure Sound (w : Watched) (lay : Layout) : Prop where
  mirror : Mirror w.book lay
  bbo : ∀ b, w.book.bbo.top b
    = if w.stale b then (priceInvalid, quantityInvalid) else top (w.lists b)

theorem sound_new : Sound new .empty where
  mirror := mirror_new
  bbo := fun b => by
    show _ = top (MarketOrderBook.new.book b)
    rw [book_new]
    cases b <;> rfl

/-- The lists are in priority. -/
theorem Sound.sorted {w : Watched} {lay : Layout} (h : Sound w lay)
    (b : Bool) : Sorted b (w.lists b) := by
  unfold lists Sorted
  rw [h.mirror.book_eq, List.pairwise_map]
  exact h.mirror.booked.sorted b

/-- What the update does to the lists, and that it is not at the top of a
list whose top it changes, unless it is the first order of its side. -/
structure Dispatched (w : Watched) (u : MatchingEngineMarketUpdate)
    (t : MarketOrderBook) (lay : Layout) : Prop where
  run : (dispatch u).run w.book = .ok () t
  mirror : Mirror t lay
  unseen : ∀ b, atTop b (w.lists b) u = false →
    (u.type = .add ∧ u.side = sideOf b ∧ w.lists b = [])
      ∨ top (t.book b) = top (w.lists b)

/-- Not at the top is below it. -/
theorem better_of_atTop {b : Bool} {l : List (Resting OrderID)}
    {u : MatchingEngineMarketUpdate} (h : atTop b l u = false)
    (hside : u.side = sideOf b) {y : Resting OrderID}
    (hy : l.head? = some y) : Better b y.price u.price := by
  cases l with
  | nil => cases hy
  | cons x l =>
      cases hy
      simpa [atTop, hside] using h

/-- A CLEAR of a book without orders changes nothing. -/
theorem run_clear_empty {s : MarketOrderBook} {lay : Layout}
    (h : Mirror s lay) (hempty : ∀ b, s.book b = []) :
    clear.run s = .ok () s := by
  have hindex : s.oidToOrder = fun _ => none := by
    funext id
    cases hid : s.oidToOrder id with
    | none => rfl
    | some p =>
        obtain ⟨⟨q, hq⟩, -⟩ := (h.index id p).1 hid
        obtain ⟨b, hb⟩ :=
          h.booked.laid.queues.level q (List.ne_nil_of_mem hq)
        rw [(h.bare hempty).1 b] at hb
        cases hb
  have horders : ∀ ids, (deallocateOrders ids).run s = .ok () s := by
    intro ids
    induction ids with
    | nil => rfl
    | cons id ids ih => simp [deallocateOrders, hindex, ih]
  have hbest : ∀ b, s.ladder.best b = none := by
    intro b
    have hhead := h.booked.laid.levels.head b
    rw [(h.bare hempty).1 b] at hhead
    exact hhead
  have hlevels : ∀ b, (onLadder (clearLevels b)).run s = .ok () s := by
    intro b
    refine run_onLadder_ok (l := s.ladder) ?_
    simp [clearLevels, hbest b]
  have hnull : ∀ b, (onLadder (Ladder.setBest b none)).run s = .ok () s := by
    intro b
    have hb := hbest b
    obtain ⟨ids, ladder, bbo⟩ := s
    cases ladder
    cases b <;> cases hb <;> rfl
  have hmodify : (modify fun s => { s with oidToOrder := fun _ => none } :
      Member Unit).run s = .ok () s := by
    show EStateM.Result.ok () { s with oidToOrder := fun _ => none } = _
    rw [← hindex]
  unfold clear
  rw [run_bind_ok (horders orderIds), run_bind_ok hmodify,
    run_bind_ok (hlevels true), run_bind_ok (hlevels false),
    run_bind_ok (hnull true)]
  exact hnull false

/-- What an emitted update does. -/
theorem Sound.dispatched {w : Watched} {lay : Layout}
    {u : MatchingEngineMarketUpdate} (h : Sound w lay)
    (hu : Emitted w.lists u)
    (hclear : u.type = .clear → ∀ b, w.lists b = []) :
    ∃ t lay', Dispatched w u t lay' := by
  -- a MODIFY (`mid` is the changed order) and a CANCEL (`mid` is empty)
  have hsplit : ∀ (mid : List (Resting OrderID)) {b : Bool}
      {x : Resting OrderID} {l m : List (Resting OrderID)}
      {t : MarketOrderBook},
      w.lists b = l ++ x :: m → u.side = sideOf b → u.price = x.price →
      (∀ y ∈ mid, y.price = x.price) →
      (∀ c, t.book c = if c = b then l ++ mid ++ m else w.lists c) →
      ∀ c, atTop c (w.lists c) u = false → top (t.book c) = top (w.lists c) := by
    intro mid b x l m t hlist hside hprice hmid hbook c htop
    rw [hbook]
    split
    · next hc =>
        rw [hc] at htop ⊢
        have hsorted := h.sorted b
        rw [hlist] at hsorted htop ⊢
        refine top_split hsorted hmid fun y hy => ?_
        rw [← hprice]
        exact better_of_atTop htop hside hy
    · rfl
  cases hu with
  | add b htype hside hrange hfresh hslot hroom =>
      obtain ⟨t, lay', hrun, hmirror, hbook⟩ :=
        onAdd_spec h.mirror hside hrange hfresh hslot hroom
      refine ⟨t, lay', ?_, hmirror, fun c htop => ?_⟩
      · unfold dispatch
        rw [htype]
        exact hrun
      · rw [hbook]
        split
        · next hc =>
            rw [hc] at htop ⊢
            cases hlist : w.lists b with
            | nil => exact Or.inl ⟨htype, hside, rfl⟩
            | cons x l =>
                have hsorted := h.sorted b
                rw [hlist] at hsorted htop
                refine Or.inr ?_
                show top (place b (added u) (w.lists b)) = _
                rw [hlist]
                exact top_place hsorted (better_of_atTop htop hside rfl)
        · exact Or.inr rfl
  | modify b x htype hmem hkey hside hprice =>
      obtain ⟨l, m, hlist⟩ := List.append_of_mem hmem
      obtain ⟨t, hrun, hmirror, hbook⟩ := onModify_spec u h.mirror hlist hkey
      refine ⟨t, lay, ?_, hmirror, fun c htop => Or.inr ?_⟩
      · unfold dispatch
        rw [htype]
        exact hrun
      · refine hsplit [{ x with quantity := u.quantity }] hlist hside hprice
          ?_ (fun c => ?_) c htop
        · intro y hy
          rw [List.mem_singleton.1 hy]
        · rw [hbook, List.append_assoc]
          rfl
  | cancel b x htype hmem hkey hside hprice =>
      obtain ⟨l, m, hlist⟩ := List.append_of_mem hmem
      obtain ⟨t, lay', hrun, hmirror, hbook⟩ :=
        onCancel_spec u h.mirror hlist hkey
      refine ⟨t, lay', ?_, hmirror, fun c htop => Or.inr ?_⟩
      · unfold dispatch
        rw [htype]
        exact hrun
      · refine hsplit [] hlist hside hprice nofun (fun c => ?_) c htop
        rw [hbook, List.append_nil]
        rfl
  | clear htype =>
      refine ⟨w.book, lay, ?_, h.mirror, fun _ _ => Or.inr rfl⟩
      unfold dispatch
      rw [htype]
      exact run_clear_empty h.mirror (hclear htype)

/-- An update keeps track. -/
theorem Sound.fed {w w' : Watched} {lay : Layout}
    {u : MatchingEngineMarketUpdate} (h : Sound w lay) (hu : Fed w u w') :
    ∃ lay', Sound w' lay' := by
  obtain ⟨t, lay', hrun, hmirror, hunseen⟩ := h.dispatched hu.emitted hu.cleared
  have htype : u.type ≠ .trade := by
    intro htrade
    cases hu.emitted with
    | add _ htype => rw [htrade] at htype; cases htype
    | modify _ _ htype => rw [htrade] at htype; cases htype
    | cancel _ _ htype => rw [htrade] at htype; cases htype
    | clear htype => rw [htrade] at htype; cases htype
  obtain ⟨notice, bbo, hupdate, htop⟩ :=
    onMarketUpdate_spec h.mirror htype hrun hmirror
  obtain ⟨notice', hupdate'⟩ := hu.updated
  rw [hupdate] at hupdate'
  have hbook : w'.book = { t with bbo := bbo } :=
    (EStateM.Result.ok.inj hupdate').2.symm
  have hlists : ∀ b, w'.lists b = t.book b := by
    intro b
    unfold lists
    rw [hbook]
    rfl
  refine ⟨lay', by rw [hbook]; exact hmirror.withBBO bbo, fun b => ?_⟩
  rw [hu.stale, hlists, hbook]
  show bbo.top b = _
  rw [htop b, h.bbo b]
  show (if atTop b (w.lists b) u then _ else _) = _
  unfold staleAfter
  cases hat : atTop b (w.lists b) u with
  | true => simp [hmirror.topOf_eq]
  | false =>
      by_cases hadd : u.type = .add ∧ u.side = sideOf b ∧ w.lists b = []
      · -- the BBO of an empty side is invalid either way
        simp [hadd, top]
      · have hsame := (hunseen b hat).resolve_left hadd
        simp [hadd, hsame]

theorem sound_of_run {us : List MatchingEngineMarketUpdate} {w : Watched}
    (h : Run Fed new us w) : ∃ lay, Sound w lay :=
  h.induct (I := fun _ w => ∃ lay, Sound w lay) ⟨_, sound_new⟩
    fun _ _ _ _ _ ⟨_, hw⟩ hu => hw.fed hu

-- ================================================================== the run

/-- The BBO is the top of the book exactly when no side is stale, or the
top of the stale ones happens to be what an empty side shows. -/
theorem isTop_iff_not_stale {us : List MatchingEngineMarketUpdate}
    {w : Watched} (h : Run Fed new us w)
    (hsum : ∀ b price, (((w.lists b).filter (·.price = price)).map
      (·.quantity.toNat)).sum < 2 ^ 32) :
    (∀ b, IsTop b (w.lists b) (w.book.bbo.top b))
      ↔ ∀ b, w.stale b = true →
        IsTop b (w.lists b) (priceInvalid, quantityInvalid) := by
  obtain ⟨lay, hw⟩ := sound_of_run h
  refine forall_congr' fun b => ?_
  rw [hw.bbo b]
  cases hstale : w.stale b with
  | true => simp
  | false => simp [isTop_top (hw.sorted b) (hsum b)]

-- ------------------------------------------------------- the first order

/-- The first order of an empty book leaves the bid stale. -/
theorem run_addOne : ∃ w, Run Fed new [addOne] w
    ∧ w.stale true = true ∧ ∀ c, w.lists c
      = if c = true then [added addOne] else [] := by
  obtain ⟨notice, t, lay, hrun, -, hbook, -⟩ :=
    run_firstAdd (u := addOne) (b := true) rfl rfl inRange_one
  have hempty : ∀ c, new.lists c = [] := fun c => by
    unfold lists new
    rw [book_new]
  refine ⟨⟨t, new.staleAfter addOne⟩, Run.nil.snoc
    ⟨.add true rfl rfl inRange_one ?_ ?_ ?_, nofun, ⟨notice, hrun⟩, rfl⟩, ?_,
    hbook⟩
  · intro c x hx
    rw [hempty] at hx
    cases hx
  · intro c x hx
    rw [hempty] at hx
    cases hx
  · unfold Ladder.Full
    rw [hempty, hempty]
    simp [levelsOf, matchingEngineMaxOrderIds, matchingEngineMaxPriceLevels]
  · show new.staleAfter addOne true = true
    unfold staleAfter
    rw [hempty]
    rfl

/-- Its quantity does not overflow. -/
theorem sum_addOne {l : Bool → List (Resting OrderID)}
    (h : ∀ c, l c = if c = true then [added addOne] else []) (b : Bool)
    (price : Price) : (((l b).filter (·.price = price)).map
      (·.quantity.toNat)).sum < 2 ^ 32 := by
  rw [h b]
  cases b with
  | false => simp
  | true =>
      rw [if_pos rfl, List.filter_singleton]
      cases decide ((added addOne).price = price) <;> decide

/-- The BBO does not show it. -/
theorem not_isTop_addOne : ¬ ∀ us w, Run Fed new us w →
    (∀ b price, (((w.lists b).filter (·.price = price)).map
      (·.quantity.toNat)).sum < 2 ^ 32) →
    ∀ b, IsTop b (w.lists b) (w.book.bbo.top b) := by
  intro hall
  obtain ⟨w, hrun, hstale, hlists⟩ := run_addOne
  obtain ⟨lay, hw⟩ := sound_of_run hrun
  have htop := hall _ _ hrun (sum_addOne hlists) true
  rw [hw.bbo, hstale, hlists] at htop
  rcases htop with ⟨hnil, -⟩ | ⟨⟨x, hx, hprice⟩, -⟩
  · cases hnil
  · rw [if_pos rfl, List.mem_singleton] at hx
    rw [hx] at hprice
    revert hprice
    decide

/-- The condition and the property on that run, both false. -/
theorem isTop_iff_not_stale_addOne : ∃ w, Run Fed new [addOne] w
    ∧ ((∀ b, IsTop b (w.lists b) (w.book.bbo.top b))
      ↔ ∀ b, w.stale b = true →
        IsTop b (w.lists b) (priceInvalid, quantityInvalid)) := by
  obtain ⟨w, hrun, -, hlists⟩ := run_addOne
  exact ⟨w, hrun, isTop_iff_not_stale hrun (sum_addOne hlists)⟩

end Watched

end MarketOrderBook

end ElectronicTrading
