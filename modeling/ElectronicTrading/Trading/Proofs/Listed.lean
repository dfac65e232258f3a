/-
The lists of a ticker's orders, and how they are made again in the order
of the ids.

`Change` keeps `Listed`: at one price the orders are in the order of their
ids, since a new order has the largest id so far and joins the end of its
level. So placing the orders by price one after the other, the smallest
id first, makes the same lists again (`Listed.rebuild`); on the way the
lists are those of the orders with an id `below` some number.
-/
import ElectronicTrading.Trading.Proofs.Replica

namespace ElectronicTrading

open PriceTime Runs

namespace MarketOrderBook

-- ============================================================ a ticker's lists

/-- What the changes keep of the lists. -/
structure Listed (book : Bool → List (Resting OrderID)) : Prop where
  sorted : ∀ b, Sorted b (book b)
  /-- At one price, by id. -/
  queue : ∀ b, (book b).Pairwise fun x y =>
    x.price = y.price → x.key.toNat < y.key.toNat
  side : ∀ b, ∀ x ∈ book b, x.side = sideOf b
  range : ∀ b, ∀ x ∈ book b, InRange x.key
  keys : ∀ b, ((book b).map (·.key)).Nodup
  apart : ∀ b, ∀ x ∈ book b, ∀ y ∈ book !b, x.key ≠ y.key
  slots : ∀ b c, ∀ x ∈ book b, ∀ y ∈ book c,
    priceToIndex x.price = priceToIndex y.price → b = c ∧ x.price = y.price
  orders : (book true).length + (book false).length < matchingEngineMaxOrderIds
  levels : (levelsOf (book true)).length + (levelsOf (book false)).length
    < matchingEngineMaxPriceLevels

variable {book book' : Bool → List (Resting OrderID)}
  {u : MatchingEngineMarketUpdate}

theorem listed_empty : Listed fun _ => [] where
  sorted := fun _ => .nil
  queue := fun _ => .nil
  side := fun _ _ hx => by cases hx
  range := fun _ _ hx => by cases hx
  keys := fun _ => .nil
  apart := fun _ _ hx => by cases hx
  slots := fun _ _ _ hx => by cases hx
  orders := by
    show 0 < matchingEngineMaxOrderIds
    decide
  levels := by decide

/-- An id has one order. -/
theorem Listed.unique (h : Listed book) {b c : Bool} {x y : Resting OrderID}
    (hx : x ∈ book b) (hy : y ∈ book c) (hkey : x.key = y.key) :
    b = c ∧ x = y := by
  have hside : b = c := by
    by_contra hne
    have hc : c = !b := by
      cases b <;> cases c <;> simp_all
    rw [hc] at hy
    exact h.apart b x hx y hy hkey
  cases hside
  exact ⟨rfl, List.inj_on_of_nodup_map (h.keys b) hx hy hkey⟩

/-- Two sums over the sides. -/
theorem sum_sides (f : Bool → Nat) (b : Bool) :
    f true + f false = f b + f !b := by
  cases b
  · exact Nat.add_comm _ _
  · rfl

/-- Fewer orders. -/
theorem Listed.sublist (h : Listed book)
    (hsub : ∀ b, (book' b).Sublist (book b)) : Listed book' := by
  have hmem : ∀ b x, x ∈ book' b → x ∈ book b := fun b x hx =>
    (hsub b).subset hx
  have hsorted : ∀ b, Sorted b (book' b) := fun b =>
    (h.sorted b).sublist (hsub b)
  refine
    { sorted := hsorted
      queue := fun b => (h.queue b).sublist (hsub b)
      side := fun b x hx => h.side b x (hmem b x hx)
      range := fun b x hx => h.range b x (hmem b x hx)
      keys := fun b => (h.keys b).sublist ((hsub b).map _)
      apart := fun b x hx y hy => h.apart b x (hmem b x hx) y (hmem _ y hy)
      slots := fun b c x hx y hy => h.slots b c x (hmem b x hx) y (hmem c y hy)
      orders := ?_
      levels := ?_ }
  · have hlength := fun b => (hsub b).length_le
    have := hlength true
    have := hlength false
    have := h.orders
    omega
  · have hle := fun b => length_levelsOf_le (h.sorted b) (hsorted b)
      fun x hx => ⟨x, hmem b x hx, rfl⟩
    have := hle true
    have := hle false
    have := h.levels
    omega

/-- Other quantities. -/
theorem Listed.congr (h : Listed book)
    (hcore : ∀ b, (book' b).map core = (book b).map core) : Listed book' := by
  have hpair : ∀ {R : Resting OrderID → Resting OrderID → Prop} (b : Bool),
      (∀ x y, R (core x) (core y) ↔ R x y) → (book b).Pairwise R →
      (book' b).Pairwise R := by
    intro R b hR hbefore
    have hmap : ((book b).map core).Pairwise R :=
      List.pairwise_map.2 (hbefore.imp fun hxy => (hR _ _).2 hxy)
    rw [← hcore] at hmap
    exact (List.pairwise_map.1 hmap).imp fun hxy => (hR _ _).1 hxy
  have hmem : ∀ b x, x ∈ book' b → ∃ y ∈ book b, core y = core x := by
    intro b x hx
    have hin : core x ∈ (book' b).map core := List.mem_map_of_mem hx
    rw [hcore] at hin
    obtain ⟨y, hy, heq⟩ := List.mem_map.1 hin
    exact ⟨y, hy, heq⟩
  have hsorted : ∀ b, Sorted b (book' b) := fun b =>
    hpair b (fun _ _ => Iff.rfl) (h.sorted b)
  have hkeys : ∀ b, (book' b).map (·.key) = (book b).map (·.key) := by
    intro b
    have hmap := congrArg (List.map fun x : Resting OrderID => x.key) (hcore b)
    rwa [List.map_map, List.map_map] at hmap
  refine
    { sorted := hsorted
      queue := fun b => hpair b (fun _ _ => Iff.rfl) (h.queue b)
      side := fun b x hx => ?_
      range := fun b x hx => ?_
      keys := fun b => by
        rw [hkeys]
        exact h.keys b
      apart := fun b x hx y hy => ?_
      slots := fun b c x hx y hy => ?_
      orders := ?_
      levels := ?_ }
  · obtain ⟨y, hy, heq⟩ := hmem b x hx
    rw [← (core_eq heq).2.1]
    exact h.side b y hy
  · obtain ⟨y, hy, heq⟩ := hmem b x hx
    rw [← (core_eq heq).1]
    exact h.range b y hy
  · obtain ⟨x', hx', hxx⟩ := hmem b x hx
    obtain ⟨y', hy', hyy⟩ := hmem _ y hy
    rw [← (core_eq hxx).1, ← (core_eq hyy).1]
    exact h.apart b x' hx' y' hy'
  · obtain ⟨x', hx', hxx⟩ := hmem b x hx
    obtain ⟨y', hy', hyy⟩ := hmem c y hy
    rw [← (core_eq hxx).2.2.1, ← (core_eq hyy).2.2.1]
    exact h.slots b c x' hx' y' hy'
  · have hlength : ∀ b, (book' b).length = (book b).length := by
      intro b
      have hmap := congrArg List.length (hcore b)
      rwa [List.length_map, List.length_map] at hmap
    rw [hlength, hlength]
    exact h.orders
  · have hle : ∀ b, (levelsOf (book' b)).length ≤ (levelsOf (book b)).length :=
      fun b => length_levelsOf_le (h.sorted b) (hsorted b) fun x hx => by
        obtain ⟨y, hy, heq⟩ := hmem b x hx
        exact ⟨y, hy, (core_eq heq).2.2.1⟩
    have := hle true
    have := hle false
    have := h.levels
    omega

/-- Every change keeps them. -/
theorem Listed.change (h : Listed book) (hchange : Change u book book') :
    Listed book' := by
  cases hchange with
  | modify b x l m htype hkey hside hprice hbook =>
      refine h.congr fun c => ?_
      unfold setSide
      split
      · next hc =>
        rw [hc, hbook, List.map_append, List.map_append]
        rfl
      · rfl
  | cancel b x l m htype hkey hside hbook =>
      refine h.sublist fun c => ?_
      unfold setSide
      split
      · next hc =>
        rw [hc, hbook]
        exact (List.Sublist.refl l).append (List.sublist_cons_self x m)
      · exact List.Sublist.refl _
  | add b htype hside hrange hlater hfree hroom =>
      obtain ⟨x, hx⟩ : ∃ x, x = added u := ⟨_, rfl⟩
      have hxkey : x.key = u.orderId := by rw [hx]; rfl
      have hxprice : x.price = u.price := by rw [hx]; rfl
      have hmem : ∀ c y, y ∈ setSide book b (place b x (book b)) c →
          (c = b ∧ y = x) ∨ y ∈ book c := by
        intro c y hy
        unfold setSide at hy
        split at hy
        · next hc =>
          rcases mem_place.1 hy with rfl | hy
          · exact Or.inl ⟨hc, rfl⟩
          · rw [hc]
            exact Or.inr hy
        · exact Or.inr hy
      have hlt : ∀ c, ∀ y ∈ book c, y.key.toNat < x.key.toNat := by
        intro c y hy
        rw [hxkey]
        exact UInt64.lt_iff_toNat_lt.1 (hlater c y hy)
      have hne : ∀ c, ∀ y ∈ book c, y.key ≠ x.key := fun c y hy heq => by
        have := hlt c y hy
        rw [heq] at this
        omega
      have hown : setSide book b (place b x (book b)) b = place b x (book b) :=
        if_pos rfl
      have hother : setSide book b (place b x (book b)) (!b) = book !b :=
        if_neg (by cases b <;> decide)
      have hsorted : ∀ c, Sorted c (setSide book b (place b x (book b)) c) := by
        intro c
        unfold setSide
        split
        · next hc =>
          rw [hc]
          exact (h.sorted b).place x
        · exact h.sorted c
      rw [← hx]
      refine
        { sorted := hsorted
          queue := fun c => ?_
          side := fun c y hy => ?_
          range := fun c y hy => ?_
          keys := fun c => ?_
          apart := fun c y hy z hz => ?_
          slots := fun c d y hy z hz hidx => ?_
          orders := ?_
          levels := ?_ }
      · unfold setSide
        split
        · exact pairwise_place (h.sorted b) (h.queue b)
            fun q hq _ => hlt b q hq
        · exact h.queue c
      · rcases hmem c y hy with ⟨rfl, rfl⟩ | hy
        · rw [hx]
          exact hside
        · exact h.side c y hy
      · rcases hmem c y hy with ⟨-, rfl⟩ | hy
        · rw [hxkey]
          exact hrange
        · exact h.range c y hy
      · unfold setSide
        split
        · have hperm : ((place b x (book b)).map (·.key)).Perm
              (x.key :: (book b).map (·.key)) :=
            (List.perm_orderedInsert _ x (book b)).map _
          refine hperm.nodup_iff.2 (List.nodup_cons.2 ⟨fun hin => ?_,
            h.keys b⟩)
          obtain ⟨y, hy, heq⟩ := List.mem_map.1 hin
          exact hne b y hy heq
        · exact h.keys c
      · rcases hmem c y hy with ⟨hc, heq⟩ | hyold
        · rcases hmem _ z hz with ⟨hc', -⟩ | hzold
          · rw [hc] at hc'
            cases b <;> cases hc'
          · rw [heq]
            exact (hne _ z hzold).symm
        · rcases hmem _ z hz with ⟨-, heq⟩ | hzold
          · rw [heq]
            exact hne c y hyold
          · exact h.apart c y hyold z hzold
      · rcases hmem c y hy with ⟨hc, heq⟩ | hyold
        · rcases hmem d z hz with ⟨hd, heq'⟩ | hzold
          · exact ⟨hc.trans hd.symm, by rw [heq, heq']⟩
          · rw [heq, hxprice] at hidx ⊢
            obtain ⟨hd, hprice⟩ := hfree d z hzold hidx.symm
            exact ⟨hc.trans hd.symm, hprice.symm⟩
        · rcases hmem d z hz with ⟨hd, heq⟩ | hzold
          · rw [heq, hxprice] at hidx ⊢
            obtain ⟨hc, hprice⟩ := hfree c y hyold hidx
            exact ⟨hc.trans hd.symm, hprice⟩
          · exact h.slots c d y hyold z hzold hidx
      · have hlen : (place b x (book b)).length = (book b).length + 1 :=
          List.orderedInsert_length _ _ _
        have hnot : ¬ matchingEngineMaxOrderIds
            ≤ (book true).length + (book false).length + 1 := fun hfull =>
          hroom (Or.inl hfull)
        rw [sum_sides (fun c => (book c).length) b] at hnot
        rw [sum_sides (fun c => (setSide book b (place b x (book b)) c).length)
          b, hown, hother, hlen]
        omega
      · rw [sum_sides (fun c =>
          (levelsOf (setSide book b (place b x (book b)) c)).length) b, hown,
          hother]
        have hlevels := h.levels
        rw [sum_sides (fun c => (levelsOf (book c)).length) b] at hlevels
        -- a price that some order has needs no level of its own
        by_cases hold : ∃ c, ∃ y ∈ book c, y.price = u.price
        · obtain ⟨c, y, hy, hprice⟩ := hold
          have hc := (hfree c y hy (congrArg priceToIndex hprice)).1
          rw [hc] at hy
          have hle := length_levelsOf_le (h.sorted b) ((h.sorted b).place x)
            fun z hz => by
              rcases mem_place.1 hz with rfl | hz
              · exact ⟨y, hy, hprice.trans hxprice.symm⟩
              · exact ⟨z, hz, rfl⟩
          omega
        · have hnew : ∀ c, ∀ y ∈ book c, y.price ≠ u.price :=
            fun c y hy hprice => hold ⟨c, y, hy, hprice⟩
          have hnot : ¬ matchingEngineMaxPriceLevels
              ≤ (levelsOf (book true)).length
                + (levelsOf (book false)).length + 1 := fun hfull =>
            hroom (Or.inr ⟨hfull, hnew⟩)
          rw [sum_sides (fun c => (levelsOf (book c)).length) b] at hnot
          rw [levelsOf_place (h.sorted b) fun q hq => by
            rw [hxprice]
            exact hnew b q hq]
          omega

-- ============================================================== made again

/-- The ADD that puts an order there as it is now. -/
def addOf (tickerId : TickerID) (x : Resting OrderID) :
    MatchingEngineMarketUpdate where
  type := .add
  orderId := x.key
  tickerId := tickerId
  side := x.side
  price := x.price
  quantity := x.quantity
  priority := x.priority

/-- The orders with a smaller id. -/
def below (k : Nat) (book : Bool → List (Resting OrderID)) :
    Bool → List (Resting OrderID) :=
  fun b => (book b).filter fun x => x.key.toNat < k

theorem below_zero : below 0 book = fun _ => [] := by
  funext b
  exact List.filter_eq_nil_iff.2 fun x _ => by simp

theorem Listed.below_max (h : Listed book) :
    below matchingEngineMaxOrderIds book = book := by
  funext b
  exact List.filter_eq_self.2 fun x hx => decide_eq_true (h.range b x hx)

/-- There is no order under the next id. -/
theorem below_succ {k : Nat} (hnone : ∀ b, ∀ x ∈ book b, x.key.toNat ≠ k) :
    below (k + 1) book = below k book := by
  funext b
  refine List.filter_congr fun x hx => ?_
  have := hnone b x hx
  simp only [decide_eq_decide]
  omega

/-- The next order joins its list. -/
theorem Listed.below_place (h : Listed book) {b : Bool} {x : Resting OrderID}
    (hx : x ∈ book b) :
    below (x.key.toNat + 1) book
      = setSide (below x.key.toNat book) b
        (place b x (below x.key.toNat book b)) := by
  have hsame : ∀ c, ∀ y ∈ book c, y.key.toNat = x.key.toNat → c = b ∧ y = x :=
    fun c y hy heq => h.unique hy hx (UInt64.toNat_inj.1 heq)
  funext c
  unfold setSide
  split
  · next hc =>
    rw [hc]
    exact (@place_filter _ b (book b) UInt64.toNat (h.sorted b)
      (h.queue b) x hx fun y hy heq => (hsame b y hy heq).2).symm
  · next hc =>
    refine List.filter_congr fun y hy => ?_
    have hne : y.key.toNat ≠ x.key.toNat := fun heq =>
      hc (hsame c y hy heq).1
    simp only [decide_eq_decide]
    omega

/-- The lists have room for it, since they had it. -/
theorem Listed.not_full {b : Bool} {x : Resting OrderID}
    (h : Listed (setSide book b (place b x (book b))))
    (hsorted : Sorted b (book b)) : ¬ Ladder.Full book x.price := by
  have hown : setSide book b (place b x (book b)) b = place b x (book b) :=
    if_pos rfl
  have hother : setSide book b (place b x (book b)) (!b) = book !b :=
    if_neg (by cases b <;> decide)
  have hlength : (place b x (book b)).length = (book b).length + 1 :=
    List.orderedInsert_length _ _ _
  have horders := h.orders
  have hlevels := h.levels
  rw [sum_sides (fun c => (setSide book b (place b x (book b)) c).length) b,
    hown, hother, hlength] at horders
  rw [sum_sides (fun c =>
    (levelsOf (setSide book b (place b x (book b)) c)).length) b, hown,
    hother] at hlevels
  intro h
  rcases h with hfull | ⟨hfull, hnew⟩
  · rw [sum_sides (fun c => (book c).length) b] at hfull
    omega
  · rw [sum_sides (fun c => (levelsOf (book c)).length) b] at hfull
    rw [levelsOf_place hsorted (hnew b)] at hlevels
    omega

/-- One order more is an ADD. -/
theorem Listed.change_below (h : Listed book) (tickerId : TickerID) {b : Bool}
    {x : Resting OrderID} (hx : x ∈ book b) :
    Change (addOf tickerId x) (below x.key.toNat book)
      (below (x.key.toNat + 1) book) := by
  have hbelow : ∀ k, Listed (below k book) := fun k =>
    h.sublist fun c => List.filter_sublist
  have hafter := hbelow (x.key.toNat + 1)
  have hmem : ∀ c, ∀ y ∈ below x.key.toNat book c,
      y ∈ book c ∧ y.key.toNat < x.key.toNat := by
    intro c y hy
    obtain ⟨hin, hlt⟩ := List.mem_filter.1 hy
    exact ⟨hin, of_decide_eq_true hlt⟩
  rw [h.below_place hx] at hafter ⊢
  refine Change.add (u := addOf tickerId x) b rfl (h.side b x hx)
    (h.range b x hx) (fun c y hy => ?_) (fun c y hy hidx => ?_)
    (hafter.not_full ((hbelow _).sorted b))
  · exact UInt64.lt_iff_toNat_lt.2 (hmem c y hy).2
  · exact h.slots c b y (hmem c y hy).1 x hx hidx

/-- A ticker's orders, held by id. -/
def HeldAs (tickerId : TickerID) (book : Bool → List (Resting OrderID))
    (held : OrderID → Option MatchingEngineMarketUpdate) : Prop :=
  ∀ o v, held o = some v ↔
    ∃ b, ∃ x ∈ book b, x.key = o ∧ v = addOf tickerId x

/-- Added in the order of their ids, the orders make the lists again. -/
theorem Listed.rebuild (h : Listed book) {tickerId : TickerID}
    {held : OrderID → Option MatchingEngineMarketUpdate}
    (hheld : HeldAs tickerId book held) (k : Nat) (hk : k < 2 ^ 64) :
    Changes (((List.range k).map UInt64.ofNat).filterMap held) (fun _ => [])
      (below k book) := by
  induction k with
  | zero =>
      rw [below_zero]
      exact .nil
  | succ k ih =>
      have hnumber : (UInt64.ofNat k).toNat = k := by
        rw [UInt64.toNat_ofNat', Nat.mod_eq_of_lt (by omega)]
      have hbefore := ih (by omega)
      rw [List.range_succ, List.map_append, List.filterMap_append,
        List.map_singleton]
      cases hv : held (UInt64.ofNat k) with
      | none =>
          rw [List.filterMap_cons_none hv, List.filterMap_nil, List.append_nil,
            below_succ]
          · exact hbefore
          · intro b x hx heq
            have hkey : x.key = UInt64.ofNat k := by
              rw [← heq, UInt64.ofNat_toNat]
            rw [(hheld _ _).2 ⟨b, x, hx, hkey, rfl⟩] at hv
            cases hv
      | some v =>
          rw [List.filterMap_cons_some hv, List.filterMap_nil]
          obtain ⟨b, x, hx, hkey, rfl⟩ := (hheld _ _).1 hv
          have hchange := h.change_below tickerId hx
          rw [hkey, hnumber] at hchange
          exact hbefore.append hchange.changes

end MarketOrderBook

end ElectronicTrading
