/-
Packed little-endian layouts.

A `Codec` is how values of a type lie in a fixed number of bytes. Its
laws are fields: every value takes `size` bytes, and a value the type
really has (`Valid`) is read back from where it was written, whatever
follows. A packed record is a `pair` of its first member's codec and the
rest's, under an `iso` of the record with its members.

`decode_frames` reads values that were laid end to end from a part of
the bytes.
-/
import ElectronicTrading.Lib.Framing
import Mathlib.Data.List.Basic
import Mathlib.Data.UInt
import Mathlib.Tactic.Common

namespace Packed

structure Codec (α : Type) where
  size : Nat
  encode : α → List UInt8
  decode : List UInt8 → α
  Valid : α → Prop
  length_encode : ∀ a, (encode a).length = size
  decode_append : ∀ a rest, Valid a → decode (encode a ++ rest) = a

namespace Codec

variable {α β : Type}

theorem decode_encode (c : Codec α) {a : α} (h : c.Valid a) :
    c.decode (c.encode a) = a := by
  have hdecode := c.decode_append a [] h
  rwa [List.append_nil] at hdecode

/-- One member after the other. -/
def pair (c : Codec α) (d : Codec β) : Codec (α × β) where
  size := c.size + d.size
  encode := fun x => c.encode x.1 ++ d.encode x.2
  decode := fun bytes => (c.decode bytes, d.decode (bytes.drop c.size))
  Valid := fun x => c.Valid x.1 ∧ d.Valid x.2
  length_encode := fun x => by
    rw [List.length_append, c.length_encode, d.length_encode]
  decode_append := fun x rest h => by
    rw [List.append_assoc, c.decode_append _ _ h.1,
      List.drop_left' (c.length_encode x.1), d.decode_append _ _ h.2]

/-- A type that is another one under another name. -/
def iso (c : Codec α) (f : α → β) (g : β → α) (hfg : ∀ b, f (g b) = b) :
    Codec β where
  size := c.size
  encode := fun b => c.encode (g b)
  decode := fun bytes => f (c.decode bytes)
  Valid := fun b => c.Valid (g b)
  length_encode := fun b => c.length_encode (g b)
  decode_append := fun b rest h => by
    rw [c.decode_append _ _ h, hfg]

/-- A type whose values are some of another's: `g` writes, `f` reads, and
only what they agree on is valid. -/
def embed (c : Codec α) (f : α → β) (g : β → α) : Codec β where
  size := c.size
  encode := fun b => c.encode (g b)
  decode := fun bytes => f (c.decode bytes)
  Valid := fun b => c.Valid (g b) ∧ f (g b) = b
  length_encode := fun b => c.length_encode (g b)
  decode_append := fun b rest h => by
    rw [c.decode_append _ _ h.1, h.2]

/-- Of values laid end to end, those are read that have arrived whole. -/
theorem decode_frames (c : Codec α) (hsize : 0 < c.size) {l : List α}
    (hvalid : ∀ a ∈ l, c.Valid a) {bytes : List UInt8}
    (hpre : bytes <+: (l.map c.encode).flatten) :
    (Framing.frames c.size bytes).map c.decode
      = l.take (bytes.length / c.size) := by
  have hframes := Framing.frames_of_part hsize (fun f hf => by
    obtain ⟨a, -, rfl⟩ := List.mem_map.1 hf
    exact c.length_encode a) hpre
  rw [hframes, ← List.map_take, List.map_map]
  have hback : ∀ a ∈ l.take (bytes.length / c.size),
      (c.decode ∘ c.encode) a = id a := fun a ha =>
    c.decode_encode (hvalid a (List.mem_of_mem_take ha))
  rw [List.map_congr_left hback, List.map_id]

/-- All of them, once all has arrived. -/
theorem length_stream (c : Codec α) (hsize : 0 < c.size) (l : List α) :
    (l.map c.encode).flatten.length / c.size = l.length := by
  have hlen : ∀ f ∈ l.map c.encode, f.length = c.size := by
    intro f hf
    obtain ⟨a, -, rfl⟩ := List.mem_map.1 hf
    exact c.length_encode a
  have hframes := Framing.frames_flatten hsize hlen
  rw [← Framing.length_frames hsize, hframes, List.length_map]

end Codec

-- ================================================================= integers

/-- The `width` low bytes of a number, the lowest first. -/
def leBytes : Nat → Nat → List UInt8
  | 0, _ => []
  | width + 1, n => UInt8.ofNat n :: leBytes width (n / 256)

/-- The number that `width` bytes spell; missing bytes are zero. -/
def ofLeBytes : Nat → List UInt8 → Nat
  | 0, _ => 0
  | width + 1, bytes =>
      (bytes.headD 0).toNat + 256 * ofLeBytes width bytes.tail

theorem length_leBytes (width n : Nat) : (leBytes width n).length = width := by
  induction width generalizing n with
  | zero => rfl
  | succ width ih => rw [leBytes, List.length_cons, ih]

theorem ofLeBytes_append (width n : Nat) (rest : List UInt8) :
    ofLeBytes width (leBytes width n ++ rest) = n % 256 ^ width := by
  induction width generalizing n with
  | zero => rw [Nat.pow_zero, Nat.mod_one, ofLeBytes]
  | succ width ih =>
      rw [leBytes, List.cons_append, ofLeBytes, List.headD_cons,
        List.tail_cons, ih, Nat.pow_succ']
      exact Nat.mod_mul.symm

namespace Codec

/-- `width` bytes of a natural number. -/
def nat (width : Nat) : Codec Nat where
  size := width
  encode := leBytes width
  decode := ofLeBytes width
  Valid := fun n => n < 256 ^ width
  length_encode := length_leBytes width
  decode_append := fun n rest h => by
    rw [ofLeBytes_append, Nat.mod_eq_of_lt h]

def uint8 : Codec UInt8 :=
  (nat 1).embed UInt8.ofNat UInt8.toNat

def uint32 : Codec UInt32 :=
  (nat 4).embed UInt32.ofNat UInt32.toNat

def uint64 : Codec UInt64 :=
  (nat 8).embed UInt64.ofNat UInt64.toNat

/-- A signed number in two's complement. -/
def int (width : Nat) : Codec Int :=
  (nat width).embed
    (fun n => if 2 * n < 256 ^ width then n
      else (n : Int) - (256 ^ width : Nat))
    (fun z => (z % (256 ^ width : Nat)).toNat)

@[simp] theorem valid_uint8 (x : UInt8) : uint8.Valid x :=
  ⟨x.toNat_lt, UInt8.ofNat_toNat⟩

@[simp] theorem valid_uint32 (x : UInt32) : uint32.Valid x :=
  ⟨x.toNat_lt, UInt32.ofNat_toNat⟩

@[simp] theorem valid_uint64 (x : UInt64) : uint64.Valid x :=
  ⟨x.toNat_lt, UInt64.ofNat_toNat⟩

/-- The numbers of a signed type. -/
theorem valid_int {width : Nat} {z : Int}
    (hlow : -((256 ^ width : Nat) : Int) ≤ 2 * z)
    (hhigh : 2 * z < ((256 ^ width : Nat) : Int)) : (int width).Valid z := by
  have hpos : 0 < 256 ^ width := Nat.pow_pos (by decide)
  obtain ⟨m, hm⟩ : ∃ m, 256 ^ width = m := ⟨_, rfl⟩
  rw [hm] at hlow hhigh hpos
  have hmod : z % (m : Int) = if 0 ≤ z then z else z + m := by
    split
    · exact Int.emod_eq_of_lt ‹_› (by omega)
    · rw [← Int.add_emod_right]
      exact Int.emod_eq_of_lt (by omega) (by omega)
  unfold int embed nat
  simp only [hm, hmod]
  constructor
  · split <;> omega
  · split <;> split <;> omega

end Codec

end Packed
