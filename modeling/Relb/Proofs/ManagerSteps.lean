import Relb.Model.ManagerThread
/-!
# What each thread can do in one step

The steps of a manager's own thread, with what each of them needs, and those of the threads that
call it.
-/

namespace Relb

open Lib

namespace ManagerThread

variable {m t : ManagerThread} {io : SocketIO} {op : Op}

inductive Advanced (m : ManagerThread) : ManagerThread → Prop
  | finishes : m.point = .loop → m.finish = true → Advanced m (m.goto (.cleanup .connecting))
  | begins : m.point = .loop → m.finish = false → Advanced m (m.goto (.purge .count))
  | scans : m.point = .purge .count → m.toBeClosed ≠ [] →
      Advanced m (m.goto (.purge (.top ⟨.connected, 0⟩)))
  | purged : m.point = .purge .count → m.toBeClosed = [] → Advanced m (m.goto (.purge .ended))
  | tops (place : PeerPlace) (top : Option Ptr) : m.point = .purge (.top place) →
      place.index < (m.peers place.kind).length → m.toBeClosed.getLast? = some top →
        Advanced m (m.goto (.purge (.offer place m.toBeClosed.length top)))
  | behind (place : PeerPlace) : m.point = .purge (.top place) →
      (m.peers place.kind).length ≤ place.index →
        Advanced m (m.goto (.purge (CloseRequests.behind place.kind)))
  | offers (place : PeerPlace) (height : Nat) (top : Option Ptr) (p : PeerObject) :
      m.point = .purge (.offer place height top) → (m.peers place.kind)[place.index]? = some p →
        Advanced m ((m.update place p (p.peer.closePInfo top)).goto (.purge (.top place.next)))
  | pops : m.point = .purge .pop → m.toBeClosed ≠ [] →
      Advanced m { m with toBeClosed := m.toBeClosed.dropLast, point := .purge .count }
  | registers : m.point = .purge .ended →
      Advanced m { m with sets := .zero, point := .registerTest ⟨.connected, 0⟩ }
  | registerNext (place : PeerPlace) : m.point = .registerTest place →
      place.index < (m.peers place.kind).length → Advanced m (m.goto (.register place))
  | registered (place : PeerPlace) : m.point = .registerTest place →
      (m.peers place.kind).length ≤ place.index → Advanced m (m.registered place)
  | adds (place : PeerPlace) (p : PeerObject) : m.point = .register place →
      (m.peers place.kind)[place.index]? = some p → m.finish = false → p.peer.isActive = true →
        FdSets.inRange place.kind p.peer = true → Advanced m { m with
          sets := m.sets.addFor place.kind p.peer
          point := .registerTest place.next }
  | drops (place : PeerPlace) (p : PeerObject) : m.point = .register place →
      (m.peers place.kind)[place.index]? = some p →
        m.finish = true ∨ p.peer.isActive = false → Advanced m (m.goto (.remove place p))
  | removes (place : PeerPlace) (p : PeerObject) : m.point = .remove place p →
      Advanced m ((m.setPeers place.kind ((m.peers place.kind).eraseIdx place.index)).goto
        (.delete place p))
  | deletes (place : PeerPlace) (p : PeerObject) : m.point = .delete place p →
      Advanced m { m with
        removed := m.removed ++ [p]
        currentconnections := m.currentconnections - 1
        point := .registerTest place }
  | skipsSelect : m.point = .beforeSelect → m.finish = true → Advanced m (m.goto .loop)
  | selects : m.point = .beforeSelect → m.finish = false → m.controlSocket.fd0 < fdSetSize →
      Advanced m { m with sets := m.sets.addControl m.controlSocket, point := .select }
  | checksSocket (ret : Int) (c : ControlSocket) : m.point = .checkSocket →
      m.controlSocket.checkSocket m.sets.setr = some (ret, c) →
        Advanced m { m with controlSocket := c, point := .manageTest 0 }
  | manageNext (i : Nat) : m.point = .manageTest i → i < m.peerList.length →
      Advanced m (m.goto (.manage i))
  | managed (i : Nat) : m.point = .manageTest i → m.peerList.length ≤ i →
      Advanced m (m.goto (.promoteTest 0))
  | manages (i : Nat) (p : PeerObject) (q : ConnectionPeer) (io : SocketIO) :
      m.point = .manage i → m.peerList[i]? = some p →
        p.peer.manageConnections m.sets.setr m.sets.setw io = .ok q →
          Advanced m ((m.update ⟨.connected, i⟩ p q).goto (.manageTest (i + 1)))
  | promoteNext (i : Nat) : m.point = .promoteTest i → i < m.connectingPeerList.length →
      Advanced m (m.goto (.promote i))
  | promoted (i : Nat) : m.point = .promoteTest i → m.connectingPeerList.length ≤ i →
      Advanced m (m.goto .loop)
  | promotes (i : Nat) (p : PeerObject) (changed : Bool) (q : ConnectionPeer) (io : SocketIO) :
      m.point = .promote i → m.connectingPeerList[i]? = some p →
        p.peer.manageConnectingPeer m.sets.setr m.sets.setw io = .ok (changed, q) →
          Advanced m ((m.update ⟨.connecting, i⟩ p q).goto
            (if changed then .leave i { p with peer := q } else .promoteTest (i + 1)))
  | leaves (i : Nat) (p : PeerObject) : m.point = .leave i p →
      Advanced m ((m.setPeers .connecting (m.connectingPeerList.eraseIdx i)).goto (.join i p))
  | joins (i : Nat) (p : PeerObject) : m.point = .join i p →
      Advanced m ((m.setPeers .connected (m.peerList ++ [p])).goto (.promoteTest i))
  | checksBad (ret : Int) (c : ControlSocket) : m.point = .badDescriptor →
      m.controlSocket.checkSocket m.sets.setr = some (ret, c) →
        Advanced m { m with
          controlSocket := c
          point := if 0 ≤ ret then .checkTest ⟨.connecting, 0⟩ else .loop }
  | checkNext (place : PeerPlace) : m.point = .checkTest place →
      place.index < (m.peers place.kind).length → Advanced m (m.goto (.check place))
  | checked (place : PeerPlace) : m.point = .checkTest place →
      (m.peers place.kind).length ≤ place.index → Advanced m (m.goto (behindCheck place.kind))
  | checks (place : PeerPlace) (p : PeerObject) (io : SocketIO) : m.point = .check place →
      (m.peers place.kind)[place.index]? = some p →
        Advanced m ((m.update place p (ManagerThread.checked place.kind p.peer io)).goto
          (.checkTest place.next))
  | cleans (kind : PeerKind) (p : PeerObject) (rest : List PeerObject) :
      m.point = .cleanup kind → m.peers kind = p :: rest →
        Advanced m { m.setPeers kind rest with removed := m.removed ++ [p] }
  | cleaned (kind : PeerKind) : m.point = .cleanup kind → m.peers kind = [] →
      Advanced m (m.goto (behindCleanup kind))
  | forgets (pinfo : Option Ptr) (rest : List (Option Ptr)) : m.point = .cleanupRequests →
      m.toBeClosed = pinfo :: rest → Advanced m { m with toBeClosed := rest }
  | ends : m.point = .cleanupRequests → m.toBeClosed = [] → Advanced m (m.goto .ended)

theorem advanced_advancePurge {point : ClosePoint} (hpoint : m.point = .purge point)
    (h : m.advancePurge point = some t) : m.Advanced t := by
  cases point with
  | count =>
      obtain rfl := Option.some.inj h
      by_cases hrequests : m.toBeClosed = []
      · rw [if_neg (by simp [hrequests])]
        exact .purged hpoint hrequests
      · rw [if_pos (List.length_pos_iff.mpr hrequests)]
        exact .scans hpoint hrequests
  | top place =>
      rw [advancePurge] at h
      split at h
      · rename_i hlt
        obtain ⟨top, htop, rfl⟩ := Option.map_eq_some_iff.mp h
        exact .tops place top hpoint hlt htop
      · obtain rfl := Option.some.inj h
        exact .behind place hpoint (by omega)
  | offer place height top =>
      obtain ⟨p, hp, rfl⟩ := Option.map_eq_some_iff.mp h
      exact .offers place height top p hpoint hp
  | pop =>
      rw [advancePurge] at h
      split at h
      · cases h
      · rename_i hrequests
        obtain rfl := Option.some.inj h
        exact .pops hpoint hrequests
  | ended =>
      obtain rfl := Option.some.inj h
      exact .registers hpoint

theorem advanced_advance (h : m.advance io = some t) : m.Advanced t := by
  unfold advance at h
  split at h <;> rename_i hpoint
  case h_1 =>
    obtain rfl := Option.some.inj h
    cases hfinish : m.finish with
    | true => exact .finishes hpoint hfinish
    | false => exact .begins hpoint hfinish
  case h_2 => exact advanced_advancePurge hpoint h
  case h_3 place =>
    split at h <;> obtain rfl := Option.some.inj h
    · exact .registerNext place hpoint ‹_›
    · exact .registered place hpoint (by omega)
  case h_4 place =>
    split at h
    · rename_i p hp
      split at h
      · rename_i hkeep
        rw [Bool.and_eq_true, Bool.not_eq_true'] at hkeep
        split at h
        · obtain rfl := Option.some.inj h
          exact .adds place p hpoint hp hkeep.1 hkeep.2 ‹_›
        · cases h
      · rename_i hkeep
        obtain rfl := Option.some.inj h
        refine .drops place p hpoint hp ?_
        cases hfinish : m.finish with
        | true => exact .inl rfl
        | false => exact .inr (by simpa [hfinish] using hkeep)
    · cases h
  case h_5 place p =>
    obtain rfl := Option.some.inj h
    exact .removes place p hpoint
  case h_6 place p =>
    obtain rfl := Option.some.inj h
    exact .deletes place p hpoint
  case h_7 =>
    split at h
    · obtain rfl := Option.some.inj h
      exact .skipsSelect hpoint ‹_›
    · split at h
      · obtain rfl := Option.some.inj h
        exact .selects hpoint (by simpa using ‹¬m.finish = true›) ‹_›
      · cases h
  case h_8 => cases h
  case h_9 =>
    obtain ⟨⟨ret, c⟩, hc, rfl⟩ := Option.map_eq_some_iff.mp h
    exact .checksSocket ret c hpoint hc
  case h_10 i =>
    obtain rfl := Option.some.inj h
    split
    · exact .manageNext i hpoint ‹_›
    · exact .managed i hpoint (by omega)
  case h_11 i =>
    split at h
    · rename_i p hp
      split at h
      · rename_i q hq
        obtain rfl := Option.some.inj h
        exact .manages i p q io hpoint hp hq
      · cases h
    · cases h
  case h_12 i =>
    obtain rfl := Option.some.inj h
    split
    · exact .promoteNext i hpoint ‹_›
    · exact .promoted i hpoint (by omega)
  case h_13 i =>
    split at h
    · rename_i p hp
      split at h
      · rename_i changed q hq
        obtain rfl := Option.some.inj h
        exact .promotes i p changed q io hpoint hp hq
      · cases h
    · cases h
  case h_14 i p =>
    obtain rfl := Option.some.inj h
    exact .leaves i p hpoint
  case h_15 i p =>
    obtain rfl := Option.some.inj h
    exact .joins i p hpoint
  case h_16 =>
    obtain ⟨⟨ret, c⟩, hc, rfl⟩ := Option.map_eq_some_iff.mp h
    exact .checksBad ret c hpoint hc
  case h_17 place =>
    obtain rfl := Option.some.inj h
    split
    · exact .checkNext place hpoint ‹_›
    · exact .checked place hpoint (by omega)
  case h_18 place =>
    obtain ⟨p, hp, rfl⟩ := Option.map_eq_some_iff.mp h
    exact .checks place p io hpoint hp
  case h_19 kind =>
    split at h <;> obtain rfl := Option.some.inj h
    · exact .cleans kind _ _ hpoint ‹_›
    · exact .cleaned kind hpoint ‹_›
  case h_20 =>
    split at h <;> obtain rfl := Option.some.inj h
    · exact .forgets _ _ hpoint ‹_›
    · exact .ends hpoint ‹_›
  case h_21 => cases h

/-- What a call goes on with. -/
inductive Called (m : ManagerThread) : Caller → ManagerThread → Option Caller → Prop
  | counts (p : PeerObject) : Called m (.addConnectionPeer p)
      { m with currentconnections := m.currentconnections + 1 } (some (.addPeer p))
  | addsPeer (p : PeerObject) : Called m (.addPeer p)
      { m with connectingPeerList := m.connectingPeerList ++ [p] } (some .post)
  | requests (pinfo : Option Ptr) : Called m (.closePInfo pinfo)
      { m with toBeClosed := m.toBeClosed ++ [pinfo] } (some .post)
  | destroys : Called m .destroy { m with finish := true } (some .post)
  | posts (c : ControlSocket) : m.controlSocket.post = some c →
      Called m .post { m with controlSocket := c } none

theorem called_advanceCaller {caller : Caller} {rest : Option Caller}
    (h : m.advanceCaller caller = some (t, rest)) : m.Called caller t rest := by
  cases caller with
  | addConnectionPeer p =>
      cases h
      exact .counts p
  | addPeer p =>
      cases h
      exact .addsPeer p
  | closePInfo pinfo =>
      cases h
      exact .requests pinfo
  | destroy =>
      cases h
      exact .destroys
  | post =>
      obtain ⟨c, hc, hpost⟩ := Option.map_eq_some_iff.mp h
      cases hpost
      exact .posts c hc

inductive Stepped (m : ManagerThread) : Op → ManagerThread → Prop
  | advance (io : SocketIO) (t : ManagerThread) : m.Advanced t → Stepped m (.advance io) t
  | select (answer : SelectAnswer) : m.point = .select →
      Stepped m (.select answer) (m.selected answer)
  | waitfor : m.point = .ended → m.finish = true → m.waited = false →
      Stepped m .waitfor { m with waited := true, point := .cleanup .connecting }
  | addConnectionPeer (peer : ConnectionPeer) : Stepped m (.addConnectionPeer peer)
      { m with
        callers := m.callers ++ [.addConnectionPeer ⟨m.created, peer⟩]
        created := m.created + 1 }
  | closePInfo (pinfo : Option Ptr) : Stepped m (.closePInfo pinfo)
      { m with callers := m.callers ++ [.closePInfo pinfo] }
  | destroy : Stepped m .destroy { m with callers := m.callers ++ [.destroy] }
  | caller (k : Nat) (caller : Caller) (t : ManagerThread) (rest : Option Caller) :
      m.callers[k]? = some caller → m.Called caller t rest →
        Stepped m (.caller k) { t with callers := t.callers.eraseIdx k ++ rest.toList }

theorem stepped_perform (h : m.perform op = some t) : m.Stepped op t := by
  cases op with
  | advance io => exact .advance io t (advanced_advance h)
  | select answer =>
      rw [perform] at h
      split at h
      · rename_i hpoint
        obtain rfl := Option.some.inj h
        exact .select answer hpoint
      · cases h
  | waitfor =>
      rw [perform] at h
      split at h
      · rename_i hpoint
        split at h
        · rename_i hfinish
          rw [Bool.and_eq_true, Bool.not_eq_true'] at hfinish
          obtain rfl := Option.some.inj h
          exact .waitfor hpoint hfinish.1 hfinish.2
        · cases h
      · cases h
  | addConnectionPeer peer =>
      obtain rfl := Option.some.inj h
      exact .addConnectionPeer peer
  | closePInfo pinfo =>
      obtain rfl := Option.some.inj h
      exact .closePInfo pinfo
  | destroy =>
      obtain rfl := Option.some.inj h
      exact .destroy
  | caller k =>
      rw [perform] at h
      split at h
      · rename_i caller hcaller
        obtain ⟨⟨t, rest⟩, hcalled, rfl⟩ := Option.map_eq_some_iff.mp h
        exact .caller k caller t rest hcaller (called_advanceCaller hcalled)
      · cases h

/-! ## What a step leaves alone -/

@[simp] theorem peers_goto (m : ManagerThread) (point : ManagerPoint) (kind : PeerKind) :
    (m.goto point).peers kind = m.peers kind := by
  cases kind <;> rfl

theorem peers_setPeers_self (m : ManagerThread) (kind : PeerKind) (l : List PeerObject) :
    (m.setPeers kind l).peers kind = l := by
  cases kind <;> rfl

end ManagerThread

end Relb
