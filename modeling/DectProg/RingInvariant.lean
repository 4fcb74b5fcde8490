-- The representation invariant of the ring buffer (buffer.c) on its pointers, and
-- the law of the rewind. The two states are not alike: a rewind that is too long
-- stops at the free space in the normal state, and runs over it in the wrapped one.
import DectProg.BufferQueue

open tape

namespace dect_prog.buffer

/-- The unread data runs from `data_start` to `data_end`, in the wrapped state round the end of
the storage. -/
structure Ring (b : buffer_t) : Prop where
  storage : b.buf_size = b.storage.length
  size_le : b.buf_size ≤ INT_MAX
  count : 0 ≤ b.count
  data_start : 0 ≤ b.data_start ∧ b.data_start ≤ b.buf_size
  data_end : 0 ≤ b.data_end ∧ b.data_end ≤ b.buf_size
  normal : b.state = .NORMAL_STATE → b.data_end = b.data_start + b.count
  wrapped : b.state = .WRAPPED_STATE →
    b.data_end ≤ b.data_start ∧ b.data_end + b.buf_size = b.data_start + b.count

theorem Ring.count_le {b : buffer_t} (h : Ring b) : b.count ≤ b.buf_size := by
  have hend := h.data_end
  have hstart := h.data_start
  cases hs : b.state with
  | NORMAL_STATE =>
    have := h.normal hs
    omega
  | WRAPPED_STATE =>
    have := h.wrapped hs
    omega

theorem Holds.ring {b : buffer_t} {t : Tape UInt8} (h : Holds b t) (hsize : t.size ≤ INT_MAX) :
    Ring b := by
  have hbuf := h.buf_size
  have hcount := h.count
  cases h with
  | normal a d c h =>
    have hlen := congrArg List.length h.storage
    simp only [List.length_append] at hlen
    dsimp only at hcount
    have hstart := h.data_start
    have hend := h.data_end
    have hcells := h.buf_size
    refine ⟨by omega, by omega, by omega, by omega, by omega, fun _ => by omega, fun hs => ?_⟩
    rw [h.state] at hs
    cases hs
  | wrapped a f c h =>
    have hlen := congrArg List.length h.storage
    simp only [List.length_append] at hlen hcount
    have hstart := h.data_start
    have hend := h.data_end
    have hcells := h.buf_size
    refine ⟨by omega, by omega, by omega, by omega, by omega, fun hs => ?_, fun _ => by omega⟩
    rw [h.state] at hs
    cases hs

/-- A list in three pieces. -/
theorem cut_twice (s : List UInt8) {i j : Nat} (h : i ≤ j) :
    s = s.take i ++ (s.drop i).take (j - i) ++ s.drop j := by
  obtain ⟨n, rfl⟩ := Nat.exists_eq_add_of_le h
  rw [Nat.add_sub_cancel_left, List.append_assoc, ← List.drop_drop, List.take_append_drop,
    List.take_append_drop]

/-- A ring buffer is a tape: in the normal state the storage is cut at `data_start` and
`data_end`, in the wrapped state the other way round. -/
theorem Ring.holds {b : buffer_t} (h : Ring b) :
    ∃ t, Holds b t ∧ (t.size : Int) = b.buf_size ∧ (t.size : Int) ≤ INT_MAX := by
  have hle := h.size_le
  have hstorage := h.storage
  have hcount := h.count
  obtain ⟨hs0, hs1⟩ := h.data_start
  obtain ⟨he0, he1⟩ := h.data_end
  obtain ⟨i, hi⟩ := Int.eq_ofNat_of_zero_le hs0
  obtain ⟨j, hj⟩ := Int.eq_ofNat_of_zero_le he0
  cases hs : b.state with
  | NORMAL_STATE =>
    have hend := h.normal hs
    have hnormal : Normal b (b.storage.take i) ((b.storage.drop i).take (j - i))
        (b.storage.drop j) := by
      refine ⟨cut_twice _ (by omega), ?_, ?_, ?_, ?_, hs⟩
      all_goals simp only [List.length_take, List.length_drop]; omega
    have hholds := Holds.normal _ _ _ hnormal
    exact ⟨_, hholds, hholds.buf_size.symm, by rw [← hholds.buf_size]; exact hle⟩
  | WRAPPED_STATE =>
    obtain ⟨hlt, hend⟩ := h.wrapped hs
    have hwrapped : Wrapped b (b.storage.take j) ((b.storage.drop j).take (i - j))
        (b.storage.drop i) := by
      refine ⟨cut_twice _ (by omega), ?_, ?_, ?_, ?_, hs⟩
      all_goals simp only [List.length_take, List.length_drop]; omega
    have hholds := Holds.wrapped _ _ _ hwrapped
    exact ⟨_, hholds, hholds.buf_size.symm, by rw [← hholds.buf_size]; exact hle⟩

/-! ## Rewinds -/

/-- A rewind of `k` bytes takes back as much of it as there is free space, and leaves the unread
data as it is. -/
structure RewindClamped (b : buffer_t) (k : Nat) : Prop where
  returned : (buffer_rewind b k).2 = min (k : Int) (b.buf_size - b.count)
  count : (buffer_rewind b k).1.count = b.count + min (k : Int) (b.buf_size - b.count)
  count_le : (buffer_rewind b k).1.count ≤ (buffer_rewind b k).1.buf_size
  unread : contents b <:+ contents (buffer_rewind b k).1
  ring : Ring (buffer_rewind b k).1

theorem Holds.rewind_clamped {b : buffer_t} {t : Tape UInt8} (h : Holds b t)
    (hsize : t.size ≤ INT_MAX) {k : Nat} (hk : b.state = .NORMAL_STATE ∨ k ≤ t.past.length) :
    RewindClamped b k := by
  obtain ⟨b', hr, hb'⟩ := buffer_rewind.clamps h hsize k hk
  have hsize' : ((t.rewind k).size : Int) ≤ INT_MAX := by rw [Tape.size_rewind]; exact hsize
  have hfree : b.buf_size - b.count = t.past.length := by
    rw [h.buf_size, h.count, Tape.size]
    omega
  have hring := hb'.ring hsize'
  refine ⟨?_, ?_, ?_, ?_, ?_⟩ <;> rw [hr]
  · rw [hfree]
    omega
  · rw [hfree, h.count, hb'.count]
    simp only [Tape.rewind, List.length_append, List.length_drop]
    omega
  · exact hring.count_le
  · rw [h.contents hsize, hb'.contents hsize']
    exact ⟨_, rfl⟩
  · exact hring

/-- In the wrapped state the second phase starts at the end of the storage again, and goes back over
the unread data. -/
theorem rewind_too_long {b : buffer_t} {a f c : List UInt8} (h : Wrapped b a f c)
    (hsize : a.length + f.length + c.length ≤ INT_MAX) (hpos : 0 < a.length + f.length + c.length)
    {k : Nat} (hk : f.length < k) : (f.length : Int) < (buffer_rewind b k).2 := by
  obtain ⟨b1, hr1, h1⟩ := rewind_wrapped.spec h hsize k f.length (by omega)
  rw [Nat.sub_self, List.take_zero, List.drop_zero] at h1
  have hcells := congrArg List.length h1.storage
  simp only [List.length_append, List.length_nil] at hcells
  unfold buffer_rewind
  rw [h.state]
  simp only [hr1]
  rw [if_pos (by omega)]
  simp only [rewind_normal, buffer_t.buf_start, buffer_t.buf_end]
  split_ifs <;> omega

/-- The buffers that writes, reads and rewinds make of a new one, where a rewind in the wrapped state
is no longer than the free space. -/
inductive Reached : buffer_t → Prop
  | new {n : Nat} {b : buffer_t} : 0 < n → n ≤ INT_MAX → buffer_new n = some b → Reached b
  | write {b b' : buffer_t} {input : List UInt8} {k : Nat} {n : Int} :
      Reached b → k ≤ input.length → buffer_write b input k = some (b', n) → Reached b'
  | read {b b' : buffer_t} {buf buf' : List UInt8} {off k : Nat} {n : Int} :
      Reached b → off + k ≤ buf.length → k ≤ INT_MAX →
      buffer_read b buf off k = some (b', buf', n) → Reached b'
  | rewind {b : buffer_t} {k : Nat} :
      Reached b → b.state = .NORMAL_STATE ∨ (k : Int) ≤ b.buf_size - b.count →
      Reached (buffer_rewind b k).1

theorem Reached.holds {b : buffer_t} (h : Reached b) :
    ∃ t, Holds b t ∧ 0 < t.size ∧ (t.size : Int) ≤ INT_MAX := by
  induction h with
  | @new n b h0 h1 hnew =>
    obtain ⟨b', hnew', hb'⟩ := buffer_new.spec n h0 h1
    cases hnew'.symm.trans hnew
    exact ⟨_, hb', by rw [Tape.size_new]; exact h0, by rw [Tape.size_new]; exact h1⟩
  | @write b b' input k n _ hk hw ih =>
    obtain ⟨t, hb, h0, h1⟩ := ih
    obtain ⟨b'', hw', hb''⟩ := buffer_write.spec hb h1 input k hk
    cases hw'.symm.trans hw
    exact ⟨_, hb'', by rw [Tape.size_write]; exact h0, by rw [Tape.size_write]; exact h1⟩
  | @read b b' buf buf' off k n _ hbuf hk hr ih =>
    obtain ⟨t, hb, h0, h1⟩ := ih
    obtain ⟨b'', hr', hb''⟩ := buffer_read.spec hb h1 buf off k hk (by omega)
    cases hr'.symm.trans hr
    exact ⟨_, hb'', by rw [Tape.size_read]; exact h0, by rw [Tape.size_read]; exact h1⟩
  | @rewind b k _ hk ih =>
    obtain ⟨t, hb, h0, h1⟩ := ih
    have hfree : b.buf_size - b.count = t.past.length := by
      rw [hb.buf_size, hb.count, Tape.size]
      omega
    obtain ⟨b', hr, hb'⟩ := buffer_rewind.clamps hb h1 k (hk.imp_right fun h => by omega)
    rw [hr]
    exact ⟨_, hb', by rw [Tape.size_rewind]; exact h0, by rw [Tape.size_rewind]; exact h1⟩

/-- Every buffer that is reached keeps the invariant, and a rewind of it is clamped as it should be
in the normal state, and in the wrapped state as long as it is no longer than the free space. -/
theorem a_rewind_is_clamped_iff {b : buffer_t} (h : Reached b) (k : Nat) :
    Ring b ∧ (RewindClamped b k ↔
      b.state = .NORMAL_STATE ∨ (k : Int) ≤ b.buf_size - b.count) := by
  obtain ⟨t, hb, h0, h1⟩ := h.holds
  have hfree : b.buf_size - b.count = t.past.length := by
    rw [hb.buf_size, hb.count, Tape.size]
    omega
  refine ⟨hb.ring h1, fun hclamped => ?_, fun hk =>
    hb.rewind_clamped h1 (hk.imp_right fun h => by omega)⟩
  by_contra hk
  have hreturned := hclamped.returned
  simp only [not_or] at hk
  cases hb with
  | normal a d c hnormal => exact hk.1 hnormal.state
  | wrapped a f c hwrapped =>
    simp only [Tape.size, List.length_append] at h0 h1 hfree
    have hlong := rewind_too_long hwrapped (by omega) (by omega) (k := k) (by omega)
    omega

/-- A new buffer, and a rewind of more than it has room for. -/
theorem a_rewind_is_clamped_iff_for_three_cells :
    ∃ b, buffer_new 3 = some b ∧ RewindClamped b 4 := by
  obtain ⟨b, hnew, _⟩ := buffer_new.spec 3 (by decide) (by decide)
  have hstate : b.state = .NORMAL_STATE := by
    cases hnew
    rfl
  exact ⟨b, hnew, (a_rewind_is_clamped_iff (.new (by decide) (by decide) hnew) 4).2.mpr (.inl hstate)⟩

/-- Three cells: after a write of three bytes, a read of two and a write of one the data is wrapped
and one cell is free. A rewind of two bytes takes back two, and counts four bytes in three cells. -/
theorem a_rewind_runs_over_the_unread_data :
    ∃ b0 b1 b2 b3 buf, buffer_new 3 = some b0 ∧ buffer_write b0 [1, 2, 3] 3 = some (b1, 3) ∧
      buffer_read b1 [0, 0] 0 2 = some (b2, buf, 2) ∧ buffer_write b2 [4] 1 = some (b3, 1) ∧
      (buffer_rewind b3 2).1.count = 4 ∧ ¬ RewindClamped b3 2 := by
  refine ⟨_, _, _, _, _, rfl, rfl, rfl, rfl, by decide, fun h => ?_⟩
  have hcount := h.count_le
  revert hcount
  decide

end dect_prog.buffer
