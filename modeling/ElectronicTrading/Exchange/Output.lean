/-
The output queues of MatchingEngine.hpp: `sendClientResponse` and
`sendMarketUpdate` write into a `LockFreeQueue` that another thread
reads.

The engine's thread processes one request at a time; the messages the
request makes the books hand over (`todo`) go into the queue one after
the other, while the consumer reads at its own pace. `pick` selects the
messages of one of the two queues. A request that ends the process stops
the engine; what it had sent has been sent.

`lossless_iff_roomy` carries the queue's condition over to the engine:
all its messages come out, in order and once each, exactly in the runs
in which none is queued with `capacity - 1` of them unread. The engine
never looks, so one request that sweeps enough orders is enough to break
it.
-/
import ElectronicTrading.Common.LockFreeQueue
import ElectronicTrading.Exchange.MatchingEngine
import ElectronicTrading.Lib.Runs

namespace ElectronicTrading

open Runs

/-- What goes to `outgoing_responses`. -/
def Sent.response? : Sent → Option MatchingEngineClientResponse
  | .response r => some r
  | .update _ => none

/-- What goes to `outgoing_market_updates`. -/
def Sent.update? : Sent → Option MatchingEngineMarketUpdate
  | .response _ => none
  | .update u => some u

/-- The engine, one of its output queues and that queue's consumer. -/
structure Output (α : Type) where
  engine : MatchingEngine
  running : Bool
  todo : List α
  threads : Threads α

/-- A request taken up, or an access to the queue. -/
inductive OutputAct (α : Type) where
  | request (request : MatchingEngineClientRequest)
  | queue (a : Act α)

namespace Output

variable {α : Type} (pick : Sent → Option α)

def new (capacity : Nat) (element : α) : Output α where
  engine := .new
  running := true
  todo := []
  threads := .new capacity element

/-- The state after a request has been worked off up to its messages. -/
def requested (o : Output α) (engine : MatchingEngine) (running : Bool) :
    Output α :=
  { o with
    engine := engine
    running := running
    todo := (engine.sent.drop o.engine.sent.length).filterMap pick }

/-- What an event does; none when it is not that event's turn. -/
def act [DecidableEq α] (o : Output α) : OutputAct α → Option (Output α)
  | .request request =>
      if o.running ∧ o.todo = [] ∧ o.threads.producer = .idle then
        match (MatchingEngine.processClientRequest request).run o.engine with
        | .ok _ engine => some (o.requested pick engine true)
        | .error _ engine => some (o.requested pick engine false)
      else none
  | .queue (.write element) =>
      match o.todo with
      | [] => none
      | next :: rest =>
          if next = element then
            (o.threads.act (.write element)).map fun t =>
              { o with todo := rest, threads := t }
          else none
  | .queue a => (o.threads.act a).map fun t => { o with threads := t }

variable [DecidableEq α]

/-- One event. -/
def Acted (o : Output α) (a : OutputAct α) (o' : Output α) : Prop :=
  o.act pick a = some o'

/-- One event that leaves nothing lost. -/
def ActedLossless (o : Output α) (a : OutputAct α) (o' : Output α) : Prop :=
  Acted pick o a o' ∧ o'.threads.Lossless

/-- There is room for what is queued next. -/
def HasRoom (o : Output α) : OutputAct α → Prop
  | .request _ => True
  | .queue a => o.threads.HasRoom a

/-- One event with room. -/
def ActedRoomy (o : Output α) (a : OutputAct α) (o' : Output α) : Prop :=
  Acted pick o a o' ∧ o.HasRoom a

/-- The messages for this queue that the books have handed over. -/
def emitted (o : Output α) : List α := o.engine.sent.filterMap pick

section

variable {pick}

/-- An event is an access to the queue or leaves the queue alone. -/
theorem threads_of_acted {o o' : Output α} {a : OutputAct α}
    (h : Acted pick o a o') : (∃ r, a = .request r ∧ o'.threads = o.threads)
      ∨ ∃ b, a = .queue b ∧ Threads.Acted o.threads b o'.threads := by
  unfold Acted at h
  cases a with
  | request r =>
      left
      refine ⟨r, rfl, ?_⟩
      simp only [act] at h
      split at h
      · split at h <;> cases h <;> rfl
      · cases h
  | queue b =>
      right
      refine ⟨b, rfl, ?_⟩
      cases b with
      | write element =>
          simp only [act] at h
          split at h
          · cases h
          · split at h
            · obtain ⟨t, ht, rfl⟩ := Option.map_eq_some_iff.1 h
              exact ht
            · cases h
      | _ =>
          obtain ⟨t, ht, rfl⟩ := Option.map_eq_some_iff.1 h
          exact ht

/-- The engine only adds to its log. -/
theorem sent_grows {r : MatchingEngineClientRequest} {s s' : MatchingEngine}
    (h : (∃ a, (MatchingEngine.processClientRequest r).run s = .ok a s')
      ∨ ∃ e, (MatchingEngine.processClientRequest r).run s = .error e s') :
    s.sent <+: s'.sent := by
  unfold MatchingEngine.processClientRequest at h
  split at h
  · next hlt =>
      unfold MatchingEngine.onBook at h
      rw [Exec.run_zoom] at h
      cases hrun : (MatchingEngineOrderBook.processClientRequest r).run
          (s.tickerOrderBook ⟨r.tickerId.toNat, hlt⟩) with
      | ok a b =>
          rw [hrun] at h
          rcases h with ⟨a', ha⟩ | ⟨e, he⟩
          · cases ha
            exact List.prefix_append _ _
          · cases he
      | error e b =>
          rw [hrun] at h
          rcases h with ⟨a', ha⟩ | ⟨e', he⟩
          · cases ha
          · cases he
            exact List.prefix_append _ _
  · rcases h with ⟨a, ha⟩ | ⟨e, he⟩
    · cases ha
    · cases he
      exact List.prefix_refl _

/-- What was written and what is to be written is what was handed
over. -/
theorem emitted_of_acted {o o' : Output α} {a : OutputAct α}
    (h : Acted pick o a o')
    (ho : o.threads.passed ++ o.todo = o.emitted pick) :
    o'.threads.passed ++ o'.todo = o'.emitted pick := by
  -- only `write` adds to what was passed
  have hpassed : ∀ {t t' : Threads α} {b : Act α}, Threads.Acted t b t' →
      (∀ element, b ≠ .write element) → t'.passed = t.passed := by
    intro t t' b hb hnot
    unfold Threads.Acted at hb
    cases b with
    | write element => exact absurd rfl (hnot element)
    | advanceWrite | countUp | advanceRead | countDown =>
        simp only [Threads.act] at hb
        split at hb
        · cases hb; rfl
        · cases hb
    | getNextToRead =>
        simp only [Threads.act] at hb
        split at hb
        · split at hb <;> cases hb <;> rfl
        · cases hb
    | take =>
        simp only [Threads.act] at hb
        split at hb
        · split at hb <;> cases hb <;> rfl
        · cases hb
  cases a with
  | request r =>
      unfold Acted at h
      simp only [act] at h
      split at h
      · next hidle =>
          have hstep : ∀ (engine : MatchingEngine) (running : Bool),
              o.engine.sent <+: engine.sent →
              (o.requested pick engine running).threads.passed
                  ++ (o.requested pick engine running).todo
                = (o.requested pick engine running).emitted pick := by
            intro engine running h
            obtain ⟨new, hnew⟩ := h
            rw [hidle.2.1, List.append_nil] at ho
            simp only [requested, emitted, ← hnew, List.drop_left,
              List.filterMap_append]
            rw [ho]
            rfl
          split at h
          · next a engine hrun =>
              cases h
              exact hstep _ _ (sent_grows (Or.inl ⟨a, hrun⟩))
          · next e engine hrun =>
              cases h
              exact hstep _ _ (sent_grows (Or.inr ⟨e, hrun⟩))
      · cases h
  | queue b =>
      cases b with
      | write element =>
          unfold Acted at h
          simp only [act] at h
          split at h
          · cases h
          · next next rest htodo =>
              split at h
              · next heq =>
                  obtain ⟨t, ht, rfl⟩ := Option.map_eq_some_iff.1 h
                  simp only [Threads.act] at ht
                  split at ht
                  · cases ht
                    show (o.threads.passed ++ [element]) ++ rest = _
                    rw [List.append_assoc, List.singleton_append, ← heq, ← htodo]
                    exact ho
                  · cases ht
              · cases h
      | _ =>
          obtain ⟨t, ht, rfl⟩ := Option.map_eq_some_iff.1 h
          show t.passed ++ o.todo = _
          rw [hpassed ht fun element hwrite => by cases hwrite]
          exact ho

theorem roomy_of_acted {o o' : Output α} {a : OutputAct α}
    (h : Acted pick o a o') (hroom : o.HasRoom a) (ho : o.threads.Roomy) :
    o'.threads.Roomy := by
  rcases threads_of_acted h with ⟨r, rfl, hsame⟩ | ⟨b, rfl, hb⟩
  · rw [hsame]
    exact ho
  · exact ho.acted hroom hb

theorem roomy_of_run {capacity : Nat} (hcap : 0 < capacity) {element : α}
    {as : List (OutputAct α)} {o : Output α}
    (h : Run (ActedRoomy pick) (new capacity element) as o) :
    o.threads.Roomy :=
  h.induct (I := fun _ o => o.threads.Roomy) (Threads.roomy_new hcap element)
    fun _ _ _ _ _ ho ha => roomy_of_acted ha.1 ha.2 ho

/-- The consumer gets all the engine emits in every state of a run, if
and only if none of it is queued without room. What the engine has
emitted is what it has passed to the queue and what it is about to. -/
theorem lossless_iff_roomy {capacity : Nat} (hcap : 0 < capacity)
    {element : α} {as : List (OutputAct α)} {o : Output α}
    (h : Run (Acted pick) (new capacity element) as o) :
    (Run (ActedLossless pick) (new capacity element) as o
      ↔ Run (ActedRoomy pick) (new capacity element) as o)
    ∧ o.threads.passed ++ o.todo = o.emitted pick := by
  refine ⟨⟨?_, ?_⟩, ?_⟩
  · clear h
    intro h
    induction h with
    | nil => exact .nil
    | snoc hrun ha ih =>
        refine ih.snoc ⟨ha.1, ?_⟩
        rcases threads_of_acted ha.1 with ⟨r, rfl, -⟩ | ⟨b, rfl, hb⟩
        · trivial
        · exact ha.2.hasRoom (roomy_of_run hcap ih) hb
  · clear h
    intro h
    induction h with
    | nil => exact .nil
    | snoc hrun ha ih =>
        have ho := roomy_of_run hcap hrun
        exact ih.snoc ⟨ha.1, (roomy_of_acted ha.1 ha.2 ho).lossless⟩
  · exact h.induct (I := fun _ o => o.threads.passed ++ o.todo = o.emitted pick)
      rfl fun _ _ _ _ _ ho ha => emitted_of_acted ha ho

-- ============================================================ two responses

end

/-- A CANCEL of nothing. -/
def cancelNothing : MatchingEngineClientRequest where
  type := .cancel
  clientId := 5
  tickerId := 3
  orderId := 9

/-- The answer to it. -/
def rejectNothing : MatchingEngineClientResponse where
  type := .cancelRejected
  clientId := 5
  tickerId := 3
  clientOrderId := 9

/-- Two such requests, with no read between. -/
def twoResponses : List (OutputAct MatchingEngineClientResponse) :=
  [.request cancelNothing, .queue (.write rejectNothing),
    .queue .advanceWrite, .queue .countUp,
    .request cancelNothing, .queue (.write rejectNothing),
    .queue .advanceWrite]

/-- Two unread responses fill a queue of two slots: it reads as empty. -/
theorem run_twoResponses : ∃ o,
    Run (Acted Sent.response?) (new 2 {}) twoResponses o
    ∧ o.threads.consumed < o.threads.published
    ∧ o.threads.queue.getNextToRead = none :=
  Run.exists_of_any _ _ _ _ (by decide +kernel)

theorem not_lossless_twoResponses :
    ¬ ∀ capacity as o, 0 < capacity →
      Run (Acted Sent.response?) (new capacity {}) as o →
      o.threads.Lossless := by
  intro hall
  obtain ⟨o, hrun, hlt, hnone⟩ := run_twoResponses
  exact (hall 2 _ o (by decide) hrun).seen hlt hnone

theorem lossless_iff_roomy_twoResponses : ∃ o,
    Run (Acted Sent.response?) (new 2 {}) twoResponses o
    ∧ (Run (ActedLossless Sent.response?) (new 2 {}) twoResponses o
      ↔ Run (ActedRoomy Sent.response?) (new 2 {}) twoResponses o)
    ∧ o.threads.passed ++ o.todo = o.emitted Sent.response? := by
  obtain ⟨o, hrun, -⟩ := run_twoResponses
  exact ⟨o, hrun, lossless_iff_roomy (by decide) hrun⟩

end Output

end ElectronicTrading
