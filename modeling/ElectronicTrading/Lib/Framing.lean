/-
Frames of a fixed size in a stream of bytes that arrives in pieces.

A receiver appends each piece to what it has and takes whole frames off
the front. `frames` and `remainder` say what it takes and what it keeps;
`forFrames` is the loop that does it, walking an index through the
buffer.

- `run_forFrames`: the loop runs its body on the frames, in order;
- `run_clip`: the loop, and then the move of what is kept to the front;
- `frames_append`, `remainder_append`: what is kept stands for all that
  came before, so a stream may be cut anywhere;
- `frames_flatten`: frames laid end to end are found again.

The bytes may be of any type.
-/
import ElectronicTrading.Lib.Exec

namespace Framing

open Exec

variable {β φ σ : Type}

-- =============================================================== the frames

/-- The frames of `size` at the front of a list. -/
def frames (size : Nat) (bytes : List β) : List (List β) :=
  if 0 < size ∧ size ≤ bytes.length then
    bytes.take size :: frames size (bytes.drop size)
  else []
termination_by bytes.length
decreasing_by
  rw [List.length_drop]
  omega

/-- What follows them. -/
def remainder (size : Nat) (bytes : List β) : List β :=
  if 0 < size ∧ size ≤ bytes.length then remainder size (bytes.drop size)
  else bytes
termination_by bytes.length
decreasing_by
  rw [List.length_drop]
  omega

variable {size : Nat}

theorem frames_of_lt {bytes : List β} (h : bytes.length < size) :
    frames size bytes = [] := by
  rw [frames, if_neg (by omega)]

theorem remainder_of_lt {bytes : List β} (h : bytes.length < size) :
    remainder size bytes = bytes := by
  rw [remainder, if_neg (by omega)]

/-- A first frame is not kept. -/
theorem remainder_drop {bytes : List β}
    (h : 0 < size ∧ size ≤ bytes.length) :
    remainder size bytes = remainder size (bytes.drop size) := by
  rw [remainder, if_pos h]

theorem frames_cons {frame bytes : List β} (hsize : 0 < size)
    (h : frame.length = size) :
    frames size (frame ++ bytes) = frame :: frames size bytes := by
  rw [frames, if_pos ⟨hsize, by rw [List.length_append]; omega⟩,
    List.take_left' h, List.drop_left' h]

theorem remainder_cons {frame bytes : List β} (hsize : 0 < size)
    (h : frame.length = size) :
    remainder size (frame ++ bytes) = remainder size bytes := by
  rw [remainder_drop ⟨hsize, by rw [List.length_append]; omega⟩,
    List.drop_left' h]

/-- Less than a frame is kept. -/
theorem length_remainder_lt (hsize : 0 < size) (bytes : List β) :
    (remainder size bytes).length < size := by
  fun_induction remainder size bytes with
  | case1 bytes h ih => exact ih
  | case2 bytes h => omega

/-- Every list is its frames and what follows them. -/
theorem frames_remainder (size : Nat) (bytes : List β) :
    (frames size bytes).flatten ++ remainder size bytes = bytes := by
  fun_induction frames size bytes with
  | case1 bytes h ih =>
      rw [remainder_drop h, List.flatten_cons, List.append_assoc, ih,
        List.take_append_drop]
  | case2 bytes h =>
      rw [remainder, if_neg h]
      rfl

theorem length_frames (hsize : 0 < size) (bytes : List β) :
    (frames size bytes).length = bytes.length / size := by
  fun_induction frames size bytes with
  | case1 bytes h ih =>
      rw [List.length_cons, ih, List.length_drop]
      exact (Nat.div_eq_sub_div hsize h.2).symm
  | case2 bytes h => exact (Nat.div_eq_of_lt (by omega)).symm

/-- What is kept stands for what came before: the frames. -/
theorem frames_append (bytes more : List β) :
    frames size (bytes ++ more)
      = frames size bytes ++ frames size (remainder size bytes ++ more) := by
  fun_induction frames size bytes with
  | case1 bytes h ih =>
      have hlen : (bytes.take size).length = size :=
        List.length_take_of_le h.2
      conv_lhs => rw [← List.take_append_drop size bytes, List.append_assoc]
      rw [frames_cons h.1 hlen, ih, remainder_drop h]
      rfl
  | case2 bytes h =>
      rw [remainder, if_neg h]
      rfl

/-- What is kept stands for what came before: what is kept next. -/
theorem remainder_append (bytes more : List β) :
    remainder size (bytes ++ more)
      = remainder size (remainder size bytes ++ more) := by
  fun_induction remainder size bytes with
  | case1 bytes h ih =>
      have hlen : (bytes.take size).length = size :=
        List.length_take_of_le h.2
      conv_lhs => rw [← List.take_append_drop size bytes, List.append_assoc]
      rw [remainder_cons h.1 hlen, ih]
  | case2 bytes h => rfl

/-- Frames laid end to end are found again. -/
theorem frames_flatten (hsize : 0 < size) {fs : List (List β)}
    (h : ∀ f ∈ fs, f.length = size) : frames size fs.flatten = fs := by
  induction fs with
  | nil => exact frames_of_lt hsize
  | cons f fs ih =>
      rw [List.flatten_cons, frames_cons hsize (h f (List.mem_cons_self ..)),
        ih fun f' hf' => h f' (List.mem_cons_of_mem f hf')]

/-- In a part of frames laid end to end, the first ones are found. -/
theorem frames_of_part (hsize : 0 < size) {fs : List (List β)}
    (h : ∀ f ∈ fs, f.length = size) {bytes : List β}
    (hpre : bytes <+: fs.flatten) :
    frames size bytes = fs.take (bytes.length / size) := by
  induction fs generalizing bytes with
  | nil =>
      rw [List.prefix_nil.1 hpre, List.take_nil]
      exact frames_of_lt hsize
  | cons f fs ih =>
      have hf := h f (List.mem_cons_self ..)
      by_cases hlen : size ≤ bytes.length
      · rw [List.flatten_cons] at hpre
        obtain ⟨rest, rfl⟩ : f <+: bytes :=
          List.prefix_of_prefix_length_le (List.prefix_append f _) hpre
            (by omega)
        have hrest := (List.prefix_append_right_inj f).1 hpre
        have hdiv : (f ++ rest).length / size = rest.length / size + 1 := by
          rw [List.length_append, hf, Nat.add_comm]
          exact Nat.add_div_right _ hsize
        rw [frames_cons hsize hf, hdiv, List.take_succ_cons,
          ih (fun f' hf' => h f' (List.mem_cons_of_mem f hf')) hrest]
      · rw [frames_of_lt (by omega), Nat.div_eq_of_lt (by omega), List.take_zero]

-- ================================================================= the loop

/-- The loop over the frames of a buffer, from `index` on; it returns the
index of the first byte it has not used. With a positive `size` a
buffer of `n` bytes leaves no room for more than `n + 1` rounds. -/
def forFrames (size : Nat) (endless : φ) (body : List β → EStateM φ σ Unit)
    (bytes : List β) : Nat → Nat → EStateM φ σ Nat
  | 0, _ => throw endless
  | fuel + 1, index => do
      if index + size ≤ bytes.length then
        body ((bytes.drop index).take size)
        forFrames size endless body bytes fuel (index + size)
      else
        return index

/-- The loop runs its body on each frame. -/
theorem run_forFrames (hsize : 0 < size) (endless : φ)
    (body : List β → EStateM φ σ Unit) (bytes : List β) :
    ∀ (fuel index : Nat) (s : σ), bytes.length < index + fuel →
      index ≤ bytes.length →
      (forFrames size endless body bytes fuel index).run s
        = (do
            forM (frames size (bytes.drop index)) body
            return bytes.length
              - (remainder size (bytes.drop index)).length).run s := by
  intro fuel
  induction fuel with
  | zero =>
      intro index s hfuel hindex
      omega
  | succ fuel ih =>
      intro index s hfuel hindex
      have hlen : (bytes.drop index).length = bytes.length - index :=
        List.length_drop
      by_cases hmore : index + size ≤ bytes.length
      · have hpos : 0 < size ∧ size ≤ (bytes.drop index).length :=
          ⟨hsize, by omega⟩
        rw [forFrames, if_pos hmore, frames, if_pos hpos, remainder_drop hpos,
          List.drop_drop, List.forM_cons, bind_assoc]
        rw [EStateM.run_bind, EStateM.run_bind]
        cases (body ((bytes.drop index).take size)).run s with
        | ok _ t => exact ih (index + size) t (by omega) hmore
        | error e t => rfl
      · have hshort : (bytes.drop index).length < size := by omega
        rw [forFrames, if_neg hmore, frames_of_lt hshort,
          remainder_of_lt hshort, hlen]
        have hback : bytes.length - (bytes.length - index) = index := by omega
        rw [hback]
        rfl

/-- From the index on, the buffer is what is kept. -/
theorem drop_used (bytes : List β) :
    bytes.drop (bytes.length - (remainder size bytes).length)
      = remainder size bytes := by
  have hall := frames_remainder size bytes
  generalize (frames size bytes).flatten = used at hall
  generalize remainder size bytes = kept at hall ⊢
  rw [← hall]
  refine List.drop_left' ?_
  rw [List.length_append]
  omega

/-- What is kept is no longer than what has been used, once a frame has
been: moving it to the front is a move to another place. -/
theorem remainder_le_used (hsize : 0 < size) {bytes : List β}
    (h : size ≤ bytes.length) : (remainder size bytes).length
      ≤ bytes.length - (remainder size bytes).length := by
  have hlt := length_remainder_lt hsize (bytes.drop size)
  have hall := congrArg List.length
    (frames_remainder size (bytes.drop size))
  rw [List.length_append, List.length_drop] at hall
  rw [remainder_drop ⟨hsize, h⟩]
  omega

/-- The loop, and then the move of what is kept to the front of the
buffer. The move is to another place; a buffer with no frame stays. -/
theorem run_clip (hsize : 0 < size) (endless overlap : φ)
    (body : List β → EStateM φ σ Unit) (bytes : List β)
    (keep : List β → σ → σ) (s : σ) (hkeep : keep bytes s = s) :
    (if size ≤ bytes.length then do
        let index ← forFrames size endless body bytes (bytes.length + 1) 0
        (if decide (bytes.length - index ≤ index) = true then pure ()
          else throw overlap : EStateM φ σ Unit)
        modify (keep (bytes.drop index))
      else pure ()).run s
      = (do
          forM (frames size bytes) body
          modify (keep (remainder size bytes)) : EStateM φ σ PUnit).run s := by
  by_cases hlen : size ≤ bytes.length
  · have hloop := run_forFrames hsize endless body bytes (bytes.length + 1) 0 s
      (by omega) (Nat.zero_le _)
    rw [List.drop_zero] at hloop
    have hle := remainder_le_used hsize hlen
    have hmove : decide (bytes.length - (bytes.length
        - (remainder size bytes).length)
        ≤ bytes.length - (remainder size bytes).length) = true :=
      decide_eq_true (by omega)
    rw [if_pos hlen, EStateM.run_bind, hloop, EStateM.run_bind,
      EStateM.run_bind]
    cases (forM (frames size bytes) body).run s with
    | ok _ t =>
        simp only [EStateM.run_pure, EStateM.run_bind, hmove, if_true,
          drop_used]
    | error e t => rfl
  · rw [if_neg hlen, frames_of_lt (by omega), remainder_of_lt (by omega)]
    show EStateM.Result.ok _ s = EStateM.Result.ok _ (keep bytes s)
    rw [hkeep]

end Framing
