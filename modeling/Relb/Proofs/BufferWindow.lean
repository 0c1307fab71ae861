import Relb.Model.ConnectionPeer
/-!
# The buffer of one direction

A buffer is sound when its receive window ends at the end of the array and its
unsent bytes end at the write offset. The bookkeeping of the source keeps it sound,
appends what is received to the pending bytes and takes what is sent off their
front, also when a drained buffer starts over.
-/

namespace Relb

namespace Buffer

variable (b : Buffer)

/-- `buffer[rOffset .. wOffset)`. -/
def pending : List UInt8 := b.slice b.rOffset (b.wOffset - b.rOffset)

structure Sound : Prop where
  window : b.wOffset + b.bytesToReceive = stamBufferSocket
  content : b.rOffset + b.bytesToSend = b.wOffset

@[simp] theorem length_slice (off n : Nat) : (b.slice off n).length = n := by
  simp [slice]

@[simp] theorem slice_zero (off : Nat) : b.slice off 0 = [] := rfl

theorem slice_add (off m n : Nat) : b.slice off (m + n) = b.slice off m ++ b.slice (off + m) n := by
  simp only [slice, List.range_add, List.map_append, List.map_map]
  congr 1
  apply List.map_congr_left
  intro i _
  simp [Nat.add_assoc]

theorem slice_write_below (bytes : List UInt8) {off n : Nat} (h : off + n ≤ b.wOffset) :
    (b.write bytes).slice off n = b.slice off n := by
  apply List.map_congr_left
  intro i hi
  have hlt : i < n := List.mem_range.mp hi
  have hbelow : ¬(b.wOffset ≤ off + i ∧ off + i < b.wOffset + bytes.length) := by omega
  simp only [write, if_neg hbelow]

theorem slice_write_at (bytes : List UInt8) :
    (b.write bytes).slice b.wOffset bytes.length = bytes := by
  apply List.ext_getElem
  · simp
  · intro i hi hb
    have hin : b.wOffset ≤ b.wOffset + i ∧ b.wOffset + i < b.wOffset + bytes.length := by omega
    simp only [slice, write, List.getElem_map, List.getElem_range, if_pos hin,
      Nat.add_sub_cancel_left, List.getD_eq_getElem?_getD, List.getElem?_eq_getElem hb,
      Option.getD_some]

theorem sound_reset : b.reset.Sound := ⟨by simp [reset], by simp [reset]⟩

variable {b}

theorem Sound.length_pending (h : b.Sound) : b.pending.length = b.bytesToSend := by
  have := h.content
  rw [pending, length_slice]
  omega

theorem Sound.pending_eq (h : b.Sound) : b.pending = b.slice b.rOffset b.bytesToSend := by
  have := h.content
  rw [pending]
  congr 1
  omega

theorem Sound.pending_nil (h : b.Sound) (hsend : b.bytesToSend = 0) : b.pending = [] := by
  rw [h.pending_eq, hsend, slice_zero]

theorem Sound.window_inside (h : b.Sound) : b.wOffset + b.bytesToReceive ≤ stamBufferSocket :=
  Nat.le_of_eq h.window

theorem Sound.received (h : b.Sound) {bytes : List UInt8}
    (hroom : bytes.length ≤ b.bytesToReceive) :
    ((b.write bytes).received bytes.length).Sound := by
  have hw := h.window
  have hc := h.content
  constructor <;> simp only [Buffer.received, write] <;> omega

theorem Sound.pending_received (h : b.Sound) (bytes : List UInt8) :
    ((b.write bytes).received bytes.length).pending = b.pending ++ bytes := by
  have hc := h.content
  have hsplit : b.wOffset + bytes.length - b.rOffset
      = (b.wOffset - b.rOffset) + bytes.length := by omega
  have hend : b.rOffset + (b.wOffset - b.rOffset) = b.wOffset := by omega
  calc ((b.write bytes).received bytes.length).pending
      = (b.write bytes).slice b.rOffset ((b.wOffset - b.rOffset) + bytes.length) := by
        rw [← hsplit]; rfl
    _ = b.pending ++ bytes := by
        rw [slice_add, hend, slice_write_at, slice_write_below _ _ (by omega), pending]

theorem Sound.sent (h : b.Sound) {n : Nat} (hn : n ≤ b.bytesToSend) : (b.sent n).Sound := by
  have hw := h.window
  have hc := h.content
  simp only [Buffer.sent]
  split
  · exact ⟨by simp, by simp [*]⟩
  · exact ⟨hw, by simp only; omega⟩

theorem Sound.pending_sent (h : b.Sound) {n : Nat} (hn : n ≤ b.bytesToSend) :
    (b.sent n).pending = b.pending.drop n := by
  have hc := h.content
  simp only [Buffer.sent]
  split
  · rename_i hdrained
    have hall : n = b.bytesToSend := by omega
    rw [List.drop_of_length_le (by rw [h.length_pending]; omega)]
    rfl
  · have hsplit : b.wOffset - b.rOffset = n + (b.wOffset - (b.rOffset + n)) := by omega
    rw [pending, pending, hsplit, slice_add, List.drop_append_of_le_length (by simp)]
    simp [slice]

theorem bytesToSend_sent (b : Buffer) (n : Nat) : (b.sent n).bytesToSend = b.bytesToSend - n := by
  simp only [Buffer.sent]
  split <;> rfl

/-! ## Room -/

/-- With nothing left to send, the buffer has started over. -/
def StartsOver (b : Buffer) : Prop := b.bytesToSend = 0 → b.wOffset = 0

theorem startsOver_reset (b : Buffer) : b.reset.StartsOver := fun _ => rfl

theorem startsOver_received (b : Buffer) {n : Nat} (hn : 0 < n) : (b.received n).StartsOver := by
  intro hsend
  have hsum : b.bytesToSend + n = 0 := hsend
  omega

theorem startsOver_sent (b : Buffer) (n : Nat) : (b.sent n).StartsOver := by
  unfold StartsOver Buffer.sent
  dsimp only
  split
  · exact fun _ => rfl
  · rename_i hkept
    intro hsend
    by_contra hoffset
    exact hkept ⟨hoffset, hsend⟩

theorem Sound.room_or_pending (h : b.Sound) (hover : b.StartsOver) :
    b.bytesToReceive ≠ 0 ∨ b.bytesToSend ≠ 0 := by
  by_cases hsend : b.bytesToSend = 0
  · left
    have hwindow := h.window
    rw [hover hsend, Nat.zero_add] at hwindow
    rw [hwindow]
    decide
  · exact .inr hsend

end Buffer

end Relb
