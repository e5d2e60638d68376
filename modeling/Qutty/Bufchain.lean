import Qutty.Basic

/-!
# Buffer chains

The byte queue of `puttysrc/utils/bufchain.c`: a linked list of granules, each
with the bytes that are still to be read and the room that is left behind them.
`bufchain_add` first fills the room of the last granule and puts the rest into
one new granule; `bufchain_consume` drops whole granules from the front and
then advances inside the first one; `bufchain_prefix` shows the first granule
only.

The client code relies on the chain being a first-in first-out byte queue.
That is the content of `content_add`, `content_consume` and `fetch_eq`: in
terms of `content` the chain is a list, whatever its granules are.
-/

namespace Qutty

/-- Bytes of a granule between `bufpos` and `bufend`, and the room up to `bufmax`. -/
structure BufchainGranule (α : Type) where
  bytes : List α
  room : Nat
deriving DecidableEq, Repr

/-- `struct bufchain`: its granules from `head` to `tail`. -/
abbrev Bufchain (α : Type) := List (BufchainGranule α)

namespace Bufchain

variable {α : Type}

/-- `sizeof(struct bufchain_granule)`: four pointers. -/
def granuleHeader : Nat := 32

/-- `BUFFER_MIN_GRANULE`. -/
def minGranule : Nat := 512

/-- The granule allocated for `data`, which it holds completely. -/
def newGranule (data : List α) : BufchainGranule α :=
  ⟨data, max (granuleHeader + data.length) minGranule - granuleHeader - data.length⟩

/-- All bytes of the chain, in reading order. -/
def content (ch : Bufchain α) : List α :=
  ch.flatMap BufchainGranule.bytes

/-- `bufchain_size`. -/
def size (ch : Bufchain α) : Nat :=
  (ch.map (fun g => g.bytes.length)).sum

/-- `bufchain_add`. -/
def add : Bufchain α → List α → Bufchain α
  | [], data => if data.isEmpty then [] else [newGranule data]
  | [g], data =>
      let now := data.take g.room
      let later := data.drop g.room
      let g' : BufchainGranule α := ⟨g.bytes ++ now, g.room - now.length⟩
      if later.isEmpty then [g'] else [g', newGranule later]
  | g :: h :: ch, data => g :: add (h :: ch) data

/-- `bufchain_consume`. -/
def consume : Bufchain α → Nat → Bufchain α
  | [], _ => []
  | g :: ch, len =>
      if len = 0 then g :: ch
      else if g.bytes.length ≤ len then consume ch (len - g.bytes.length)
      else ⟨g.bytes.drop len, g.room⟩ :: ch

/-- `bufchain_fetch`. -/
def fetch : Bufchain α → Nat → List α
  | [], _ => []
  | g :: ch, len => g.bytes.take len ++ fetch ch (len - g.bytes.length)

/-- `bufchain_prefix`: the bytes of the first granule. -/
def headBytes : Bufchain α → List α
  | [] => []
  | g :: _ => g.bytes

@[simp] theorem content_nil : content ([] : Bufchain α) = [] := rfl

@[simp] theorem content_cons (g : BufchainGranule α) (ch : Bufchain α) :
    content (g :: ch) = g.bytes ++ content ch := rfl

theorem size_eq (ch : Bufchain α) : size ch = (content ch).length := by
  induction ch with
  | nil => rfl
  | cons g ch ih =>
      simp only [size, List.map_cons, List.sum_cons, content_cons,
        List.length_append] at ih ⊢
      omega

theorem content_eq_nil (ch : Bufchain α) (h : ¬ 0 < size ch) : content ch = [] := by
  have hzero : (content ch).length = 0 := by
    rw [← size_eq]
    omega
  exact List.length_eq_zero_iff.mp hzero

/-- Adding appends. -/
@[simp] theorem content_add (ch : Bufchain α) (data : List α) :
    content (add ch data) = content ch ++ data := by
  induction ch with
  | nil =>
      cases data with
      | nil => rfl
      | cons b data => simp [add, newGranule]
  | cons g ch ih =>
      cases ch with
      | nil =>
          by_cases hl : (data.drop g.room).isEmpty
          · have hle : data.length ≤ g.room := by simpa using hl
            simp [add, hle, List.take_of_length_le hle]
          · simp only [add, hl, Bool.false_eq_true, if_false, newGranule,
              content_cons, content_nil, List.append_nil, List.append_assoc,
              List.take_append_drop]
      | cons h ch =>
          simp only [add, content_cons] at ih ⊢
          rw [ih]
          simp

/-- Consuming drops. -/
@[simp] theorem content_consume (ch : Bufchain α) (len : Nat) :
    content (consume ch len) = (content ch).drop len := by
  induction ch generalizing len with
  | nil => simp [consume]
  | cons g ch ih =>
      by_cases h0 : len = 0
      · simp [consume, h0]
      · by_cases hle : g.bytes.length ≤ len
        · simp only [consume, h0, if_false, hle, if_true, ih, content_cons,
            List.drop_append, List.drop_of_length_le hle, List.nil_append]
        · simp only [consume, h0, if_false, hle, content_cons]
          rw [List.drop_append_of_le_length (by omega)]

/-- Fetching reads without consuming. -/
theorem fetch_eq (ch : Bufchain α) (len : Nat) :
    fetch ch len = (content ch).take len := by
  induction ch generalizing len with
  | nil => simp [fetch]
  | cons g ch ih =>
      simp [fetch, ih, List.take_append]

/-- Fetching everything gives the whole content. -/
@[simp] theorem fetch_size (ch : Bufchain α) : fetch ch (size ch) = content ch := by
  rw [fetch_eq, size_eq, List.take_length]

/-- Consuming everything empties the chain. -/
@[simp] theorem content_consume_size (ch : Bufchain α) :
    content (consume ch (size ch)) = [] := by
  rw [content_consume, size_eq, List.drop_length]

/-- What the chain shows first is the beginning of its content. -/
theorem content_eq_headBytes (ch : Bufchain α) :
    ∃ rest, content ch = headBytes ch ++ rest := by
  cases ch with
  | nil => exact ⟨[], rfl⟩
  | cons g ch => exact ⟨content ch, rfl⟩

end Bufchain

end Qutty
