-- The ring buffer of buffer.c. A pointer into the storage is its offset from
-- `buf_start`, so `buf_start` itself is 0.
import DectProg.Memory

namespace dect_prog.buffer

inductive BufferState
  | NORMAL_STATE
  | WRAPPED_STATE
  deriving DecidableEq, Repr

structure buffer_t where
  /-- The bytes from `buf_start` to `buf_end`. -/
  storage : List UInt8
  data_start : Int
  data_end : Int
  count : Int
  buf_size : Int
  state : BufferState
  deriving DecidableEq, Repr

def buffer_t.buf_start (_ : buffer_t) : Int := 0

def buffer_t.buf_end (self : buffer_t) : Int := self.storage.length

/-- A negative size is a huge `size_t`, for which `calloc` fails and the program ends. -/
def buffer_new (size : Int) : Option buffer_t :=
  if 0 ≤ size then
    some { storage := List.replicate size.toNat 0, data_start := 0, data_end := 0,
           count := 0, buf_size := u32 size, state := .NORMAL_STATE }
  else none

/-! ## The phases of a write, a read and a rewind

Each gives the buffer after it, what it returns, and for a read the array that
it read into. -/

def write_normal (self : buffer_t) (input : List UInt8) (ioff count : Int) :
    Option (buffer_t × Int) := do
  let count := if self.data_end + count > self.buf_end then self.buf_end - self.data_end else count
  let storage ← memcpy self.storage self.data_end input ioff count
  some ({ self with storage, data_end := self.data_end + count, count := u32 (self.count + count) },
    count)

def write_wrapped (self : buffer_t) (input : List UInt8) (ioff count : Int) :
    Option (buffer_t × Int) := do
  let count :=
    if self.data_end + count > self.data_start then self.data_start - self.data_end else count
  let storage ← memcpy self.storage self.data_end input ioff count
  some ({ self with storage, data_end := self.data_end + count, count := u32 (self.count + count) },
    count)

/-- The bound compares an `int` with a `uint32_t`, so as unsigned. -/
def read_normal (self : buffer_t) (buf : List UInt8) (off count : Int) :
    Option (buffer_t × List UInt8 × Int) := do
  let count := if u32 count > self.count then self.count else count
  let buf ← memcpy buf off self.storage self.data_start count
  some ({ self with data_start := self.data_start + count, count := u32 (self.count - count) },
    buf, count)

def read_wrapped (self : buffer_t) (buf : List UInt8) (off count : Int) :
    Option (buffer_t × List UInt8 × Int) := do
  let count :=
    if self.data_start + count > self.buf_end then self.buf_end - self.data_start else count
  let buf ← memcpy buf off self.storage self.data_start count
  some ({ self with data_start := self.data_start + count, count := u32 (self.count - count) },
    buf, count)

def rewind_normal (self : buffer_t) (count : Int) : buffer_t × Int :=
  let count :=
    if self.data_start - count < self.buf_start then self.data_start - self.buf_start else count
  ({ self with data_start := self.data_start - count, count := u32 (self.count + count) }, count)

def rewind_wrapped (self : buffer_t) (count : Int) : buffer_t × Int :=
  let count :=
    if self.data_start - count < self.data_end then self.data_start - self.data_end else count
  ({ self with data_start := self.data_start - count, count := u32 (self.count + count) }, count)

/-! ## The functions of buffer.h -/

def buffer_write (self : buffer_t) (input : List UInt8) (count : Int) :
    Option (buffer_t × Int) :=
  if self.count = self.buf_size then
    some (self, 0)
  else match self.state with
    | .NORMAL_STATE => do
      let (self, written) ← write_normal self input 0 count
      if written < count ∧ self.count < self.buf_size then
        -- Wrap the buffer
        let self := { self with state := .WRAPPED_STATE, data_end := self.buf_start }
        let (self, more) ← write_wrapped self input written (count - written)
        some (self, written + more)
      else some (self, written)
    | .WRAPPED_STATE => do
      let (self, written) ← write_wrapped self input 0 count
      if written < count ∧ self.count < self.buf_size then
        let self := { self with state := .NORMAL_STATE, data_end := self.buf_start }
        let (self, more) ← write_normal self input written (count - written)
        some (self, written + more)
      else some (self, written)

/-- `off` is the place in the array `buf` where the bytes go. -/
def buffer_read (self : buffer_t) (buf : List UInt8) (off count : Int) :
    Option (buffer_t × List UInt8 × Int) :=
  match self.state with
  | .NORMAL_STATE => do
    let (self, buf, read) ← read_normal self buf off count
    if read < count ∧ self.count > 0 then
      let self := { self with state := .WRAPPED_STATE, data_start := self.buf_start }
      let (self, buf, more) ← read_wrapped self buf (off + read) (count - read)
      some (self, buf, read + more)
    else some (self, buf, read)
  | .WRAPPED_STATE => do
    let (self, buf, read) ← read_wrapped self buf off count
    if read < count ∧ self.count > 0 then
      let self := { self with state := .NORMAL_STATE, data_start := self.buf_start }
      let (self, buf, more) ← read_normal self buf (off + read) (count - read)
      some (self, buf, read + more)
    else some (self, buf, read)

def buffer_rewind (self : buffer_t) (count : Int) : buffer_t × Int :=
  match self.state with
  | .NORMAL_STATE =>
    let (self, rewinded) := rewind_normal self count
    if rewinded < count then
      let self := { self with state := .WRAPPED_STATE, data_start := self.buf_end }
      let (self, more) := rewind_wrapped self (count - rewinded)
      (self, rewinded + more)
    else (self, rewinded)
  | .WRAPPED_STATE =>
    let (self, rewinded) := rewind_wrapped self count
    if rewinded < count then
      let self := { self with state := .NORMAL_STATE, data_start := self.buf_end }
      let (self, more) := rewind_normal self (count - rewinded)
      (self, rewinded + more)
    else (self, rewinded)

def buffer_size (self : buffer_t) : Int := s32 self.count

/-! ## What a write takes from its input -/

section congr

variable {b : buffer_t} {input input' : List UInt8} {count : Int} {k : Nat}
  (hlen : input.length = input'.length) (hk : input.take k = input'.take k)

include hlen hk

theorem write_normal_congr {ioff : Int} (hn : ioff + count ≤ k) :
    write_normal b input ioff count = write_normal b input' ioff count := by
  unfold write_normal
  dsimp only
  rw [memcpy_congr hlen hk]
  split <;> omega

theorem write_wrapped_congr {ioff : Int} (hn : ioff + count ≤ k) :
    write_wrapped b input ioff count = write_wrapped b input' ioff count := by
  unfold write_wrapped
  dsimp only
  rw [memcpy_congr hlen hk]
  split <;> omega

/-- A write takes the first `count` bytes of its input. -/
theorem buffer_write_congr (hn : count ≤ k) :
    buffer_write b input count = buffer_write b input' count := by
  have hrest : ∀ written, written + (count - written) ≤ k := by omega
  unfold buffer_write
  rw [write_normal_congr hlen hk (by omega), write_wrapped_congr hlen hk (by omega)]
  simp only [write_normal_congr hlen hk (hrest _), write_wrapped_congr hlen hk (hrest _)]

end congr

end dect_prog.buffer
