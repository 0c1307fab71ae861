import Relb.Lib.Channel
import Relb.Proofs.PeerSteps
/-!
# Relay fidelity

Each direction of a peer is a channel in the sense of `Lib.Channel`: its input is
what was received from the source socket, its output what the destination socket
accepted, and its pending items are the bytes between the two offsets of its
buffer. `Faithful p e` collects what holds of the direction towards `e` at every
moment, and every function of the peer keeps it.
-/

namespace Relb

open Lib

namespace Event

/-- The bytes that this event received from `e`. -/
def bytesFrom (e : Endpoint) : Event → List UInt8
  | .receiveNB d _ _ ret bytes => if d = e ∧ 0 < ret then bytes else []
  | _ => []

/-- The bytes that the socket of `e` accepted in this event. -/
def bytesTo (e : Endpoint) : Event → List UInt8
  | .sendNB d bytes ret => if d = e ∧ 0 < ret then bytes.take ret.toNat else []
  | _ => []

/-- A call on the socket of `e` returned a negative number. -/
def Negative (e : Endpoint) : Event → Prop
  | .receiveNB d _ _ ret _ => d = e ∧ ret < 0
  | .sendNB d _ ret => d = e ∧ ret < 0
  | .checkSocket d ret => d = e ∧ ret < 0
  | _ => False

instance (e : Endpoint) (ev : Event) : Decidable (ev.Negative e) := by
  cases ev <;> unfold Negative <;> infer_instance

/-- A receive asked for bytes inside the array only. -/
def InsideBuffer : Event → Prop
  | .receiveNB _ offset max _ _ => offset + max ≤ stamBufferSocket
  | _ => True

end Event

namespace ConnectionPeer

/-- All bytes received for `e`: the other endpoint is their source. -/
def receivedFor (p : ConnectionPeer) (e : Endpoint) : List UInt8 :=
  p.trace.flatMap (Event.bytesFrom e.other)

/-- All bytes that the socket of `e` accepted. -/
def deliveredTo (p : ConnectionPeer) (e : Endpoint) : List UInt8 :=
  p.trace.flatMap (Event.bytesTo e)

/-- What holds of the direction towards `e` at every moment. -/
structure Faithful (p : ConnectionPeer) (e : Endpoint) : Prop where
  sound : (p.bufferFor e).Sound
  inside : ∀ ev ∈ p.trace, ev.InsideBuffer
  inOrder : InOrder (Event.bytesFrom e.other) (Event.bytesTo e) p.trace
  conserves : (p.socket e).isSome →
    Conserves (Event.bytesFrom e.other) (Event.bytesTo e) (p.bufferFor e).pending p.trace

variable {p : ConnectionPeer}

/-! ## Faithfulness, operation by operation -/

/-- An event that moves no byte, with buffers and sockets left alone or closed, keeps a
direction faithful. -/
theorem Faithful.idle {q : ConnectionPeer} {e : Endpoint} (h : p.Faithful e) (ev : Event)
    (htrace : q.trace = p.trace ++ [ev]) (hinside : ev.InsideBuffer)
    (hin : ev.bytesFrom e.other = []) (hout : ev.bytesTo e = [])
    (hsocket : (q.socket e).isSome → (p.socket e).isSome ∧ q.bufferFor e = p.bufferFor e)
    (hsound : (q.bufferFor e).Sound) : q.Faithful e where
  sound := hsound
  inside := by
    rw [htrace]
    intro x hx
    rcases List.mem_append.mp hx with hx | hx
    · exact h.inside x hx
    · rw [List.mem_singleton.mp hx]
      exact hinside
  inOrder := by
    rw [htrace]
    exact h.inOrder.receive hout
  conserves := by
    intro hq
    obtain ⟨hp, hb⟩ := hsocket hq
    rw [htrace, hb]
    exact (h.conserves hp).idle hin hout

theorem Faithful.post {e : Endpoint} (h : p.Faithful e) (id : UInt32) :
    (p.post id).Faithful e := by
  unfold ConnectionPeer.post
  split
  · exact h.idle (.post id) rfl trivial rfl rfl (by simp) (by simpa using h.sound)
  · exact h

theorem Faithful.emit_check {e d : Endpoint} (h : p.Faithful e) (ret : Int) :
    (p.emit (.checkSocket d ret)).Faithful e :=
  h.idle (.checkSocket d ret) rfl trivial rfl rfl (by simp) (by simpa using h.sound)

theorem Faithful.drop {e : Endpoint} (h : p.Faithful e) (d : Endpoint) :
    (p.drop d).Faithful e := by
  rcases d.eq_or_other e with rfl | rfl
  · exact h.idle (.close d) (by simp) trivial rfl rfl (by simp)
      (by simpa using Buffer.sound_reset _)
  · exact h.idle (.close e.other) (by simp) trivial rfl rfl (by simp)
      (by simpa using h.sound)

theorem Faithful.closeEndpoint {e : Endpoint} (h : p.Faithful e) (d : Endpoint) :
    (p.closeEndpoint d).Faithful e :=
  p.closeEndpoint_induct d (I := fun q => q.Faithful e) (fun _ d' hq => hq.drop d') h

theorem Faithful.close {e : Endpoint} (h : p.Faithful e) : p.close.Faithful e :=
  (h.closeEndpoint .client).closeEndpoint .server

theorem Faithful.setConnected {e : Endpoint} (h : p.Faithful e) :
    Faithful { p with pServerConnected := true } e :=
  ⟨by cases e <;> exact h.sound, h.inside, h.inOrder, by cases e <;> exact h.conserves⟩

theorem Faithful.emit_receive {e d : Endpoint} (h : p.Faithful e) {off max : Nat} {ret : Int}
    {bytes : List UInt8} (hinside : off + max ≤ stamBufferSocket) (hret : ¬0 < ret) :
    (p.emit (.receiveNB d off max ret bytes)).Faithful e :=
  h.idle (.receiveNB d off max ret bytes) rfl hinside (by simp [Event.bytesFrom, hret]) rfl
    (by simp) (by simpa using h.sound)

theorem Faithful.emit_send {e d : Endpoint} (h : p.Faithful e) {ret : Int}
    {bytes : List UInt8} (hret : ¬0 < ret) :
    (p.emit (.sendNB d bytes ret)).Faithful e :=
  h.idle (.sendNB d bytes ret) rfl trivial rfl (by simp [Event.bytesTo, hret])
    (by simp) (by simpa using h.sound)

/-- Bytes received from `e` enter the channel towards `e.other` and leave the channel towards
`e` alone. -/
theorem faithful_received {e : Endpoint} (h : ∀ d, p.Faithful d)
    (r : ReceiveResult (p.bufferFor e.other).bytesToReceive) (hret : 0 < r.ret) (d : Endpoint) :
    ((p.emit (.receiveNB e (p.bufferFor e.other).wOffset (p.bufferFor e.other).bytesToReceive
        r.ret r.bytes)).setBufferFor e.other
      (((p.bufferFor e.other).write r.bytes).received r.ret.toNat)).Faithful d := by
  have hlen : r.ret.toNat = r.bytes.length := by
    have := r.length_bytes hret
    omega
  have hroom : r.bytes.length ≤ (p.bufferFor e.other).bytesToReceive := by
    have := r.ret_le
    omega
  have hinside : Event.InsideBuffer (.receiveNB e (p.bufferFor e.other).wOffset
      (p.bufferFor e.other).bytesToReceive r.ret r.bytes) := (h e.other).sound.window_inside
  rw [hlen]
  rcases d.eq_or_other e with rfl | rfl
  · refine (h d).idle (.receiveNB d _ _ r.ret r.bytes) (by simp) hinside ?_ rfl
      (by simp) (by simpa using (h d).sound)
    simp [Event.bytesFrom]
  · refine ⟨?_, ?_, ?_, ?_⟩
    · simpa using (h e.other).sound.received hroom
    · intro x hx
      simp only [trace_setBufferFor, trace_emit, List.mem_append, List.mem_singleton] at hx
      rcases hx with hx | rfl
      · exact (h e).inside x hx
      · exact hinside
    · simpa using (h e.other).inOrder.receive rfl
    · intro hopen
      have hout : Event.bytesTo e.other (.receiveNB e (p.bufferFor e.other).wOffset
        (p.bufferFor e.other).bytesToReceive r.ret r.bytes) = [] := rfl
      have hcons := ((h e.other).conserves (by simpa using hopen)).receive hout
      simpa [(h e.other).sound.pending_received, Event.bytesFrom, hret] using hcons

/-- Bytes accepted by `e` leave its channel from the front. -/
theorem faithful_sent {e : Endpoint} (h : ∀ d, p.Faithful d) (hopen : (p.socket e).isSome)
    (r : SendResult (p.bufferFor e).bytesToSend) (hret : 0 < r.ret) (d : Endpoint) :
    ((p.emit (.sendNB e ((p.bufferFor e).slice (p.bufferFor e).rOffset
        (p.bufferFor e).bytesToSend) r.ret)).setBufferFor e
      ((p.bufferFor e).sent r.ret.toNat)).Faithful d := by
  have hle : r.ret.toNat ≤ (p.bufferFor e).bytesToSend := by
    have := r.ret_le
    omega
  rcases d.eq_or_other e with rfl | rfl
  · have hpending := (h d).sound.pending_eq
    have hout : Event.bytesTo d (.sendNB d ((p.bufferFor d).slice (p.bufferFor d).rOffset
        (p.bufferFor d).bytesToSend) r.ret) = (p.bufferFor d).pending.take r.ret.toNat := by
      simp [Event.bytesTo, hret, hpending]
    refine ⟨?_, ?_, ?_, ?_⟩
    · simpa using (h d).sound.sent hle
    · intro x hx
      simp only [trace_setBufferFor, trace_emit, List.mem_append, List.mem_singleton] at hx
      rcases hx with hx | rfl
      · exact (h d).inside x hx
      · trivial
    · have hord := (h d).inOrder.send ((h d).conserves hopen)
        (hout ▸ List.take_prefix _ _)
      simpa using hord
    · intro _
      have hin : Event.bytesFrom d.other (.sendNB d ((p.bufferFor d).slice (p.bufferFor d).rOffset
        (p.bufferFor d).bytesToSend) r.ret) = [] := rfl
      have hcons := ((h d).conserves hopen).send hin hout
      simpa [(h d).sound.pending_sent hle] using hcons
  · exact (h e.other).idle (.sendNB e ((p.bufferFor e).slice (p.bufferFor e).rOffset
        (p.bufferFor e).bytesToSend) r.ret) (by simp) trivial rfl
      (by simp [Event.bytesTo]) (by simp) (by simpa using (h e.other).sound)

theorem faithful_getMissingDataFrom (e : Endpoint) (disconnected lost : ConnectionPeer → UInt32)
    (io : SocketIO) (h : ∀ d, p.Faithful d) (d : Endpoint) :
    (p.getMissingDataFrom e disconnected lost io).Faithful d := by
  have hinside := (h e.other).sound.window_inside
  simp only [getMissingDataFrom]
  split
  · split
    · rename_i hret
      exact faithful_received h _ hret d
    · rename_i hret
      split
      · split <;> exact (((h d).emit_receive hinside hret).closeEndpoint e).post _
      · exact (h d).emit_receive hinside hret
  · exact h d

theorem faithful_sendMissingDataTo (e : Endpoint) (disconnected lost : UInt32) (io : SocketIO)
    (h : ∀ d, p.Faithful d) (d : Endpoint) :
    (p.sendMissingDataTo e disconnected lost io).Faithful d := by
  simp only [sendMissingDataTo]
  split
  · rename_i hopen
    split
    · rename_i hret
      have hsent := faithful_sent h hopen.1 _ hret d
      split
      · exact (hsent.closeEndpoint e).post _
      · exact hsent
    · rename_i hret
      split
      · split <;> exact (((h d).emit_send hret).closeEndpoint e).post _
      · exact (h d).emit_send hret
  · exact h d

theorem faithful_checkEndpoint (e : Endpoint) (lost : UInt32) (io : SocketIO)
    (h : ∀ d, p.Faithful d) (d : Endpoint) : (p.checkEndpoint e lost io).Faithful d := by
  simp only [checkEndpoint]
  split
  · split
    · exact (((h d).emit_check _).closeEndpoint e).post _
    · exact (h d).emit_check _
  · exact h d

end ConnectionPeer

end Relb
