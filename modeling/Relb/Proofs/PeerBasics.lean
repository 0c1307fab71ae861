import Relb.Model.ConnectionPeer
/-!
# Frame and closing lemmas of `ConnectionPeer`

What the small operations of a peer change and what they leave alone, and a closed
form of the mutually recursive close functions: an endpoint is dropped, and the
other one with it exactly when `Follows` says so.
-/

namespace Relb

open Lib

@[simp] theorem Endpoint.other_other (e : Endpoint) : e.other.other = e := by
  cases e <;> rfl

@[simp] theorem Endpoint.other_ne (e : Endpoint) : e.other ≠ e := by
  cases e <;> decide

@[simp] theorem Endpoint.ne_other (e : Endpoint) : e ≠ e.other := (Endpoint.other_ne e).symm

theorem Endpoint.eq_or_other (d e : Endpoint) : d = e ∨ d = e.other := by
  cases d <;> cases e <;> simp [Endpoint.other]

namespace ConnectionPeer

variable (p : ConnectionPeer) (e d : Endpoint) (b : Buffer) (ev : Event) (id : UInt32)

/-! ## Frames -/

@[simp] theorem socket_emit : (p.emit ev).socket e = p.socket e := by cases e <;> rfl
@[simp] theorem bufferFor_emit : (p.emit ev).bufferFor e = p.bufferFor e := by cases e <;> rfl
@[simp] theorem pServerConnected_emit : (p.emit ev).pServerConnected = p.pServerConnected := rfl
@[simp] theorem pjq_emit : (p.emit ev).pjq = p.pjq := rfl
@[simp] theorem pinfo_emit : (p.emit ev).pinfo = p.pinfo := rfl
@[simp] theorem trace_emit : (p.emit ev).trace = p.trace ++ [ev] := rfl

@[simp] theorem socket_setBufferFor : (p.setBufferFor d b).socket e = p.socket e := by
  cases d <;> cases e <;> rfl
@[simp] theorem bufferFor_setBufferFor_self : (p.setBufferFor e b).bufferFor e = b := by
  cases e <;> rfl
@[simp] theorem bufferFor_setBufferFor_other :
    (p.setBufferFor e b).bufferFor e.other = p.bufferFor e.other := by
  cases e <;> rfl
@[simp] theorem bufferFor_setBufferFor_of_other :
    (p.setBufferFor e.other b).bufferFor e = p.bufferFor e := by
  cases e <;> rfl
@[simp] theorem pServerConnected_setBufferFor :
    (p.setBufferFor e b).pServerConnected = p.pServerConnected := by
  cases e <;> rfl
@[simp] theorem pjq_setBufferFor : (p.setBufferFor e b).pjq = p.pjq := by cases e <;> rfl
@[simp] theorem pinfo_setBufferFor : (p.setBufferFor e b).pinfo = p.pinfo := by cases e <;> rfl
@[simp] theorem trace_setBufferFor : (p.setBufferFor e b).trace = p.trace := by cases e <;> rfl

@[simp] theorem socket_post : (p.post id).socket e = p.socket e := by
  unfold post; split <;> simp
@[simp] theorem bufferFor_post : (p.post id).bufferFor e = p.bufferFor e := by
  unfold post; split <;> simp
@[simp] theorem pServerConnected_post : (p.post id).pServerConnected = p.pServerConnected := by
  unfold post; split <;> simp
@[simp] theorem pjq_post : (p.post id).pjq = p.pjq := by
  unfold post; split <;> simp
@[simp] theorem pinfo_post : (p.post id).pinfo = p.pinfo := by
  unfold post; split <;> simp

@[simp] theorem socket_drop_self : (p.drop e).socket e = none := by cases e <;> rfl
@[simp] theorem socket_drop_other : (p.drop e).socket e.other = p.socket e.other := by
  cases e <;> rfl
@[simp] theorem socket_drop_of_other : (p.drop e.other).socket e = p.socket e := by
  cases e <;> rfl
@[simp] theorem bufferFor_drop_self : (p.drop e).bufferFor e = (p.bufferFor e).reset := by
  cases e <;> rfl
@[simp] theorem bufferFor_drop_other : (p.drop e).bufferFor e.other = p.bufferFor e.other := by
  cases e <;> rfl
@[simp] theorem bufferFor_drop_of_other : (p.drop e.other).bufferFor e = p.bufferFor e := by
  cases e <;> rfl
@[simp] theorem pServerConnected_drop : (p.drop e).pServerConnected = p.pServerConnected := by
  cases e <;> rfl
@[simp] theorem pjq_drop : (p.drop e).pjq = p.pjq := by cases e <;> rfl
@[simp] theorem pinfo_drop : (p.drop e).pinfo = p.pinfo := by cases e <;> rfl
@[simp] theorem trace_drop : (p.drop e).trace = p.trace ++ [.close e] := by cases e <;> rfl

theorem pClient_eq : p.pClient = p.socket .client := rfl
theorem pServer_eq : p.pServer = p.socket .server := rfl

theorem one_closed {p : ConnectionPeer} (h : ¬(p.pClient.isSome ∧ p.pServer.isSome)) :
    p.socket .client = none ∨ p.socket .server = none := by
  rw [pClient_eq, pServer_eq] at h
  cases hc : p.socket .client <;> simp_all

theorem isActive_eq_false :
    p.isActive = false ↔ ∀ e, p.socket e = none := by
  simp only [isActive, Bool.or_eq_false_iff, Option.isSome_eq_false_iff, Option.isNone_iff_eq_none]
  constructor
  · rintro ⟨hc, hs⟩ e
    cases e
    · exact hc
    · exact hs
  · exact fun h => ⟨h .client, h .server⟩

/-! ## Closing -/

/-- Closing `e` takes the other endpoint along: it is open and nothing is left to send to it,
or the server is not connected yet. -/
def Follows : Prop :=
  (p.socket e.other).isSome ∧
    ((p.bufferFor e.other).bytesToSend = 0 ∨ e = .client ∧ p.pServerConnected = false)

instance : Decidable (p.Follows e) := by unfold Follows; infer_instance

theorem closeNested_of_closed (n : Nat) (h : p.socket e = none) : closeNested n e p = p := by
  cases n with
  | zero => rfl
  | succ n => cases e <;> simp only [socket] at h <;> simp [closeNested, h]

theorem closeNested_succ (n : Nat) (h : (p.socket e).isSome) :
    closeNested (n + 1) e p =
      if p.Follows e then closeNested n e.other (p.drop e) else p.drop e := by
  cases e with
  | client =>
      have hopen : p.pClient.isSome := h
      have hsrv : (p.drop .client).pServer = p.pServer := rfl
      have hbuf : (p.drop .client).bufferForServer = p.bufferForServer := rfl
      have hcon : (p.drop .client).pServerConnected = p.pServerConnected := rfl
      simp only [closeNested, hopen, if_true, hsrv, hbuf, hcon, Follows, socket, bufferFor,
        Endpoint.other]
      cases hs : p.pServer with
      | none =>
          have hclosed : closeNested n .server (p.drop .client) = p.drop .client :=
            closeNested_of_closed _ .server n hs
          simp [hclosed]
      | some t =>
          by_cases hz : p.bufferForServer.bytesToSend = 0 <;>
            by_cases hc : p.pServerConnected = true <;> simp [hz, hc]
  | server =>
      have hopen : p.pServer.isSome := h
      have hcli : (p.drop .server).pClient = p.pClient := rfl
      have hbuf : (p.drop .server).bufferForClient = p.bufferForClient := rfl
      simp [closeNested, hopen, hcli, hbuf, Follows, socket, bufferFor, Endpoint.other]

theorem closeEndpoint_of_closed (h : p.socket e = none) : p.closeEndpoint e = p :=
  closeNested_of_closed p e 2 h

theorem closeEndpoint_of_open (h : (p.socket e).isSome) :
    p.closeEndpoint e =
      if p.Follows e then (p.drop e).drop e.other else p.drop e := by
  rw [closeEndpoint, closeNested_succ p e 1 h]
  by_cases hf : p.Follows e
  · have hopen : ((p.drop e).socket e.other).isSome := by simpa using hf.1
    have hback : ¬(p.drop e).Follows e.other := by simp [Follows]
    rw [if_pos hf, if_pos hf, closeNested_succ _ _ 0 hopen, if_neg hback]
  · rw [if_neg hf, if_neg hf]

theorem closeNested_eq (n : Nat) : closeNested (n + 2) e p = p.closeEndpoint e := by
  cases hs : p.socket e with
  | none => rw [closeNested_of_closed _ _ _ hs, closeEndpoint_of_closed _ _ hs]
  | some s =>
      have hopen : (p.socket e).isSome := by simp [hs]
      rw [closeNested_succ p e (n + 1) hopen, closeEndpoint_of_open p e hopen]
      by_cases hf : p.Follows e
      · have hopen' : ((p.drop e).socket e.other).isSome := by simpa using hf.1
        have hback : ¬(p.drop e).Follows e.other := by simp [Follows]
        rw [if_pos hf, if_pos hf, closeNested_succ _ _ n hopen', if_neg hback]
      · rw [if_neg hf, if_neg hf]

theorem closeClient_eq :
    p.closeClient =
      if p.pClient.isSome then
        let p := p.drop .client
        if p.pServer.isSome ∧ p.bufferForServer.bytesToSend = 0 then p.closeServer
        else if ¬p.pServerConnected then p.closeServer
        else p
      else p := by
  rw [closeClient, ← closeNested_eq p .client 1]
  rfl

theorem closeServer_eq :
    p.closeServer =
      if p.pServer.isSome then
        let p := p.drop .server
        if p.pClient.isSome ∧ p.bufferForClient.bytesToSend = 0 then p.closeClient
        else p
      else p := by
  rw [closeServer, ← closeNested_eq p .server 1]
  rfl

theorem closeEndpoint_induct {I : ConnectionPeer → Prop} (hdrop : ∀ q d, I q → I (q.drop d))
    (h : I p) : I (p.closeEndpoint e) := by
  cases hs : p.socket e with
  | none => rwa [closeEndpoint_of_closed p e hs]
  | some s =>
      rw [closeEndpoint_of_open p e (by simp [hs])]
      split
      · exact hdrop _ _ (hdrop _ _ h)
      · exact hdrop _ _ h

@[simp] theorem socket_closeEndpoint_self : (p.closeEndpoint e).socket e = none := by
  cases hs : p.socket e with
  | none => rw [closeEndpoint_of_closed p e hs, hs]
  | some s =>
      rw [closeEndpoint_of_open p e (by simp [hs])]
      split <;> simp

theorem socket_closeEndpoint_other :
    (p.closeEndpoint e).socket e.other =
      if (p.socket e).isSome ∧ p.Follows e then none else p.socket e.other := by
  cases hs : p.socket e with
  | none => simp [closeEndpoint_of_closed p e hs]
  | some s =>
      rw [closeEndpoint_of_open p e (by simp [hs])]
      split <;> simp_all

@[simp] theorem pServerConnected_closeEndpoint :
    (p.closeEndpoint e).pServerConnected = p.pServerConnected :=
  p.closeEndpoint_induct e (I := fun q => q.pServerConnected = p.pServerConnected)
    (fun q d h => by simpa using h) rfl

@[simp] theorem pjq_closeEndpoint : (p.closeEndpoint e).pjq = p.pjq :=
  p.closeEndpoint_induct e (I := fun q => q.pjq = p.pjq) (fun q d h => by simpa using h) rfl

@[simp] theorem pinfo_closeEndpoint : (p.closeEndpoint e).pinfo = p.pinfo :=
  p.closeEndpoint_induct e (I := fun q => q.pinfo = p.pinfo) (fun q d h => by simpa using h) rfl

theorem isActive_close : p.close.isActive = false := by
  rw [isActive_eq_false]
  intro e
  cases e
  · rw [close, closeServer]
    have h := socket_closeEndpoint_other p.closeClient .server
    simp only [Endpoint.other] at h
    rw [h]
    split
    · rfl
    · exact socket_closeEndpoint_self p .client
  · exact socket_closeEndpoint_self p.closeClient .server

/-! ## Runs -/

variable {p}

theorem reachable_of_created (h : p.Created) : p.Reachable := .start h

theorem Reachable.perform {q : ConnectionPeer} (h : p.Reachable) (op : Op)
    (hq : p.perform op = .ok q) : q.Reachable :=
  .next h trivial hq

theorem Reachable.invariant {I : ConnectionPeer → Prop} (hcreated : ∀ p, p.Created → I p)
    (hperform : ∀ p op, I p → Always I (p.perform op)) (h : p.Reachable) : I p := by
  unfold Reachable at h
  refine Reach.invariant hcreated (fun q op q' hq _ hstep => ?_) h
  have halways := hperform q op hq
  rwa [hstep] at halways

/-! A connection that concrete runs start from: the client sends one byte while the server
becomes connected. -/

namespace Sample

def client : Socket := ⟨1, ⟨10, 0, 0, 1⟩, 1000⟩

def server : Socket := ⟨2, ⟨10, 0, 0, 2⟩, 80⟩

def created : ConnectionPeer := create (fun _ _ => 0) (some client) (some server) true (some 1)

def clientSends : SocketIO :=
  { SocketIO.idle with receiveNB := fun _ => ReceiveResult.available [97] }

def clientCloses : SocketIO :=
  { SocketIO.idle with receiveNB := fun _ => ReceiveResult.code (-2) (by decide) }

def connect : Op := .manageConnectingPeer (fun fd => fd == 1) (fun fd => fd == 2) clientSends

def connected : ConnectionPeer := final (created.perform connect)

theorem created_created : created.Created := ⟨_, _, _, _, _, rfl⟩

theorem reachable_connected : connected.Reachable :=
  (reachable_of_created created_created).perform connect rfl

end Sample

end ConnectionPeer

end Relb
