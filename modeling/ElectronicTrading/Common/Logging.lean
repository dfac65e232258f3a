/-
Logging.hpp: `Logger::log`, from its arguments to the elements it pushes
into the queue of the logger's thread.

The two overloads of `log` scan the format alike; the one with a value
hands the rest of the format and of the arguments on at the first
placeholder. `tokens` is what both read off the format: an escape takes
two characters, so a `%` is a placeholder or not by how many stand before
it (`scan_cases`, for one scan). `run_log` says what is pushed and when
the process ends instead.

A text argument is a C string on its way into the queue, a `std::string`
too: what stands behind a zero character is not pushed.
-/
import ElectronicTrading.Common.Proofs.QueueRuns
import ElectronicTrading.Lib.Exec
import Mathlib.Data.List.TakeWhile

namespace ElectronicTrading

-- ============================================================= the queue

namespace LockFreeQueue

variable {α : Type}

/-- `*getNextToWrite() = element`, then `updateWriteIndex`. -/
def push (q : LockFreeQueue α) (element : α) : LockFreeQueue α :=
  (q.assign q.getNextToWrite element).updateWriteIndex

def pushAll (q : LockFreeQueue α) (elements : List α) : LockFreeQueue α :=
  elements.foldl push q

@[simp] theorem pushAll_nil (q : LockFreeQueue α) : q.pushAll [] = q := rfl

@[simp] theorem pushAll_cons (q : LockFreeQueue α) (e : α) (es : List α) :
    q.pushAll (e :: es) = (q.push e).pushAll es := rfl

@[simp] theorem pushAll_append (q : LockFreeQueue α) (es es' : List α) :
    q.pushAll (es ++ es') = (q.pushAll es).pushAll es' :=
  List.foldl_append

end LockFreeQueue

-- ============================================================ the values

/-- `LogElement`: the type and the member of the union it selects. A
floating point number is carried as its bits. -/
inductive LogElement where
  | char (c : UInt8)
  | integer (i : Int32)
  | longInteger (l : Int64)
  | longLongInteger (ll : Int64)
  | unsignedInteger (u : UInt32)
  | unsignedLongInteger (ul : UInt64)
  | unsignedLongLongInteger (ull : UInt64)
  | float (f : UInt32)
  | double (d : UInt64)
deriving DecidableEq

/-- What a `const char*` points to: the characters before the zero. -/
structure CString where
  chars : List UInt8
  nonzero : 0 ∉ chars

/-- `c_str()`, as far as it is read. -/
def cStr (value : List UInt8) : CString where
  chars := value.takeWhile (· ≠ 0)
  nonzero := fun hzero => by
    have hall := List.mem_takeWhile_imp hzero
    simp at hall

/-- An argument of `log`, by the overload of `pushValue` that takes it. -/
inductive LogArg where
  | element (logElement : LogElement)
  | char (value : UInt8)
  | charPointer (value : CString)
  | string (value : List UInt8)
  | int (value : Int32)
  | long (value : Int64)
  | longLong (value : Int64)
  | unsignedInt (value : UInt32)
  | unsignedLongInt (value : UInt64)
  | unsignedLongLong (value : UInt64)
  | float (value : UInt32)
  | double (value : UInt64)

/-- The two calls of `FATAL`. -/
inductive LogFault where
  /-- "extra arguments provided to log()" -/
  | extraArguments
  /-- "missing arguments to log()" -/
  | missingArguments
deriving DecidableEq

-- ============================================================== the code

namespace Logger

/-- A member function, on the logger's `queue`. -/
abbrev Member (α : Type) := EStateM LogFault (LockFreeQueue LogElement) α

/-- `pushValue(const LogElement&)`. -/
def pushElement (logElement : LogElement) : Member Unit :=
  modify fun queue => queue.push logElement

/-- `pushValue(const char*)`. -/
def pushChars : List UInt8 → Member Unit
  | [] => pure ()
  | c :: value => do
      pushElement (.char c)
      pushChars value

/-- `pushValue`, by overload. -/
def pushValue : LogArg → Member Unit
  | .element logElement => pushElement logElement
  | .char value => pushElement (.char value)
  | .charPointer value => pushChars value.chars
  | .string value => pushChars (cStr value).chars
  | .int value => pushElement (.integer value)
  | .long value => pushElement (.longInteger value)
  | .longLong value => pushElement (.longLongInteger value)
  | .unsignedInt value => pushElement (.unsignedInteger value)
  | .unsignedLongInt value => pushElement (.unsignedLongInteger value)
  | .unsignedLongLong value => pushElement (.unsignedLongLongInteger value)
  | .float value => pushElement (.float value)
  | .double value => pushElement (.double value)

/-- `'%'`. -/
def percent : UInt8 := 37

/-- The `while` loop of both overloads: up to the first `%` that does
not escape another, and then what stands behind it. -/
def scan : List UInt8 → Member (Option (List UInt8))
  | [] => return none
  | c :: s =>
      if c = percent then
        match s with
        | [] => return some []
        | c' :: s' =>
            if c' = percent then do
              pushValue (.char c')
              scan s'
            else return some (c' :: s')
      else do
        pushValue (.char c)
        scan s

/-- `log(const char *s)` and `log(const char *s, const T &value, A... args)`,
which calls itself or the other one with `s + 1` and `args`. -/
def log (s : List UInt8) : List LogArg → Member Unit
  | [] => do
      match ← scan s with
      | none => return ()
      | some _ => throw .missingArguments
  | value :: args => do
      match ← scan s with
      | none => throw .extraArguments
      | some s =>
          pushValue value
          log s args

-- ========================================================== the statement

/-- What a format is made of. -/
inductive Token where
  | char (c : UInt8)
  | placeholder
deriving DecidableEq

/-- A format, read from the left: `%%` is a `%`, another `%` is a
placeholder, everything else is itself. -/
def tokens : List UInt8 → List Token
  | [] => []
  | [c] => if c = percent then [.placeholder] else [.char c]
  | c :: c' :: s =>
      if c = percent then
        if c' = percent then .char percent :: tokens s
        else .placeholder :: tokens (c' :: s)
      else .char c :: tokens (c' :: s)

/-- The number of placeholders. -/
def placeholders (s : CString) : Nat :=
  (tokens s.chars).count .placeholder

/-- The elements of an argument. -/
def elements : LogArg → List LogElement
  | .element logElement => [logElement]
  | .char value => [.char value]
  | .charPointer value => value.chars.map .char
  | .string value => value.map .char
  | .int value => [.integer value]
  | .long value => [.longInteger value]
  | .longLong value => [.longLongInteger value]
  | .unsignedInt value => [.unsignedInteger value]
  | .unsignedLongInt value => [.unsignedLongInteger value]
  | .unsignedLongLong value => [.unsignedLongLongInteger value]
  | .float value => [.float value]
  | .double value => [.double value]

/-- An argument as it is read: a string up to its first zero. -/
def asRead : LogArg → LogArg
  | .string value => .charPointer (cStr value)
  | value => value

/-- The tokens with the arguments in place of the placeholders, in order;
up to the first placeholder for which none is left. -/
def expand : List Token → List LogArg → List LogElement
  | [], _ => []
  | .char c :: ts, args => .char c :: expand ts args
  | .placeholder :: _, [] => []
  | .placeholder :: ts, value :: args => elements value ++ expand ts args

-- ================================================================ the runs

variable (q : LockFreeQueue LogElement)

theorem run_pushChars (value : List UInt8) :
    (pushChars value).run q = .ok () (q.pushAll (value.map .char)) := by
  induction value generalizing q with
  | nil => rfl
  | cons c value ih => exact ih (q.push (.char c))

theorem run_pushValue (value : LogArg) :
    (pushValue value).run q = .ok () (q.pushAll (elements (asRead value))) := by
  cases value with
  | charPointer value => exact run_pushChars q value.chars
  | string value => exact run_pushChars q (cStr value).chars
  | _ => rfl

theorem tokens_char {c : UInt8} (s : List UInt8) (hc : c ≠ percent) :
    tokens (c :: s) = .char c :: tokens s := by
  cases s with
  | nil => simp [tokens, hc]
  | cons c' s => rw [tokens, if_neg hc]

/-- One scan: it reads `text` and stops at the end, or behind the first
placeholder. -/
structure Scans (s text : List UInt8) (rest : Option (List UInt8)) :
    Prop where
  tokens : tokens s = text.map .char ++
    match rest with
    | none => []
    | some s' => .placeholder :: tokens s'
  run : ∀ q, (scan s).run q = .ok rest (q.pushAll (text.map .char))

/-- One more character in front. -/
theorem Scans.cons {s t text : List UInt8} {rest : Option (List UInt8)}
    {c : UInt8} (h : Scans t text rest)
    (htokens : Logger.tokens s = .char c :: Logger.tokens t)
    (hrun : ∀ q, (scan s).run q = (scan t).run (q.push (.char c))) :
    Scans s (c :: text) rest where
  tokens := by
    rw [htokens, h.tokens]
    rfl
  run := fun q => by
    rw [hrun, h.run]
    rfl

theorem scans (s : List UInt8) : ∃ text rest, Scans s text rest := by
  induction s using scan.induct with
  | case1 => exact ⟨[], none, rfl, fun _ => rfl⟩
  | case2 =>
      -- a `%` at the end
      exact ⟨[], some [], rfl, fun _ => rfl⟩
  | case3 s ih =>
      obtain ⟨text, rest, h⟩ := ih
      exact ⟨_, rest, h.cons rfl fun _ => rfl⟩
  | case4 c' s hc' =>
      refine ⟨[], some (c' :: s), ?_, fun q => ?_⟩
      · rw [Logger.tokens, if_pos rfl, if_neg hc']
        rfl
      · simp [scan, hc']
  | case5 c s hc ih =>
      obtain ⟨text, rest, h⟩ := ih
      refine ⟨_, rest, h.cons (tokens_char s hc) fun q => ?_⟩
      rw [scan.eq_def]
      simp only [if_neg hc]
      rfl

theorem count_text (text : List UInt8) (ts : List Token) :
    (text.map Token.char ++ ts).count .placeholder
      = ts.count .placeholder := by
  rw [List.count_append, List.count_eq_zero.2, Nat.zero_add]
  intro hmem
  obtain ⟨c, -, hc⟩ := List.mem_map.1 hmem
  cases hc

theorem expand_text (text : List UInt8) (ts : List Token)
    (args : List LogArg) :
    expand (text.map .char ++ ts) args
      = text.map .char ++ expand ts args := by
  induction text with
  | nil => rfl
  | cons c text ih =>
      rw [List.map_cons, List.cons_append, expand, ih]
      rfl

/-- How a call ends. -/
def ended (placeholders args : Nat) (q : LockFreeQueue LogElement) :
    EStateM.Result LogFault (LockFreeQueue LogElement) Unit :=
  if placeholders = args then .ok () q
  else if placeholders < args then .error .extraArguments q
  else .error .missingArguments q

theorem ended_succ (placeholders args : Nat) :
    ended (placeholders + 1) (args + 1) q = ended placeholders args q := by
  unfold ended
  simp only [Nat.add_right_cancel_iff, Nat.add_lt_add_iff_right]

/-- The calls of `log`, one for each argument and a last one for none. -/
theorem run_log_chars (s : List UInt8) (args : List LogArg) :
    (log s args).run q
      = ended ((tokens s).count .placeholder) args.length
          (q.pushAll (expand (tokens s) (args.map asRead))) := by
  induction args generalizing s q with
  | nil =>
      obtain ⟨text, rest, hscan⟩ := scans s
      rw [log, Exec.run_bind_ok (hscan.run q), hscan.tokens, count_text,
        expand_text]
      cases rest with
      | none =>
          rw [show expand [] _ = [] from rfl, List.append_nil]
          rfl
      | some s' =>
          rw [List.count_cons_self]
          simp [ended, expand]
  | cons value args ih =>
      obtain ⟨text, rest, hscan⟩ := scans s
      rw [log, Exec.run_bind_ok (hscan.run q), hscan.tokens, count_text,
        expand_text]
      cases rest with
      | none =>
          simp [ended, expand]
      | some s' =>
          dsimp only
          rw [Exec.run_bind_ok (run_pushValue _ value), ih,
            List.count_cons_self, List.length_cons, ended_succ,
            List.map_cons, expand, LockFreeQueue.pushAll_append,
            LockFreeQueue.pushAll_append]

/-- `log` pushes the format with each `%%` replaced by a `%` and each
placeholder by its argument, and it ends the process exactly if their
numbers differ. -/
theorem run_log (s : CString) (args : List LogArg) :
    (log s.chars args).run q
        = ended (placeholders s) args.length
            (q.pushAll (expand (tokens s.chars) (args.map asRead)))
      ∧ ((∃ fault q', (log s.chars args).run q = .error fault q')
        ↔ placeholders s ≠ args.length) := by
  have hrun := run_log_chars q s.chars args
  refine ⟨hrun, ?_⟩
  rw [hrun]
  show (∃ fault q', ended (placeholders s) _ _ = _) ↔ _
  unfold ended
  split
  · next heq => exact iff_of_false nofun (fun hne => hne heq)
  · next hne =>
    refine iff_of_true ?_ hne
    split
    · exact ⟨_, _, rfl⟩
    · exact ⟨_, _, rfl⟩

/-- A `std::string` is not pushed past a zero. -/
theorem log_string_zero : ¬ ∀ (s : CString) (args : List LogArg)
    (q : LockFreeQueue LogElement), placeholders s = args.length →
      (log s.chars args).run q
        = .ok () (q.pushAll (expand (tokens s.chars) args)) := by
  intro hall
  have hpushed := hall ⟨[percent], by decide⟩ [.string [0, 120]]
    (.new 8 (.char 0)) rfl
  have hqueue := (EStateM.Result.ok.inj hpushed).2
  have hcount := congrArg LockFreeQueue.numElements hqueue
  cases hcount

end Logger

end ElectronicTrading
