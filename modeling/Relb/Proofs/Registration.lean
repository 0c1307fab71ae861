import Relb.Model.ThreadedConnectionManagerList
import Relb.Proofs.BothOrNone
import Relb.Proofs.Fidelity
/-!
# What a peer waits for

Before `select` a peer adds its sockets to the descriptor sets: for reading while there is room,
for writing while something is pending. A buffer that has been drained starts over, so each
direction always has room or something to send; and an endpoint outlives the other one only with
bytes pending for it. So the calls of `FD_SET` always include a socket that can take the peer on,
and `select` looks at it if its descriptor is one that `FD_SET` and `isInFDSET` take. A socket that
could not be created is registered like any other one, and its peer waits for nothing.
-/

namespace Relb

open Lib

/-! ## Descriptor sets -/

/-- `select` looks at the descriptor of the socket, and `isInFDSET` can report it. -/
structure Socket.Watched (s : Socket) (sets : FdSet × Int) : Prop where
  selectable : s.Selectable
  marked : sets.1 s.sock = true
  le_maxFd : s.sock ≤ sets.2

theorem Socket.watched_addToFDSET {s : Socket} (hs : s.Selectable) (set : FdSet) (maxFd : Int) :
    s.Watched (s.addToFDSET set maxFd) := by
  refine ⟨hs, by simp [addToFDSET], ?_⟩
  unfold addToFDSET
  dsimp only
  split <;> omega

/-- No mark is taken back. -/
structure Grows (a b : FdSet × Int) : Prop where
  marked : ∀ fd, a.1 fd = true → b.1 fd = true
  maxFd : a.2 ≤ b.2

namespace Grows

variable {a b c : FdSet × Int} {s : Socket}

theorem refl (a : FdSet × Int) : Grows a a := ⟨fun _ h => h, Int.le_refl _⟩

theorem trans (h : Grows a b) (h' : Grows b c) : Grows a c :=
  ⟨fun fd hfd => h'.marked fd (h.marked fd hfd), Int.le_trans h.maxFd h'.maxFd⟩

theorem watched (h : Grows a b) (hs : s.Watched a) : s.Watched b :=
  ⟨hs.selectable, h.marked _ hs.marked, Int.le_trans hs.le_maxFd h.maxFd⟩

end Grows

theorem Socket.grows_addToFDSET (s : Socket) (set : FdSet) (maxFd : Int) :
    Grows (set, maxFd) (s.addToFDSET set maxFd) := by
  constructor
  · intro fd hfd
    simp [addToFDSET, show set fd = true from hfd]
  · unfold addToFDSET
    dsimp only
    split <;> omega

namespace ConnectionPeer

variable {p q : ConnectionPeer} {e : Endpoint} {io : SocketIO} {s : Socket} {ptr : Option Socket}
  {bytes : Nat} {set setr setw : FdSet} {maxFd : Int} {id : UInt32}

theorem watched_addIfBytes (hselectable : s.Selectable) (hbytes : bytes ≠ 0) (set : FdSet)
    (maxFd : Int) : s.Watched (addIfBytes (some s) bytes set maxFd) := by
  rw [addIfBytes, if_pos hbytes]
  exact Socket.watched_addToFDSET hselectable set maxFd

theorem grows_addIfBytes (ptr : Option Socket) (bytes : Nat) (set : FdSet) (maxFd : Int) :
    Grows (set, maxFd) (addIfBytes ptr bytes set maxFd) := by
  unfold addIfBytes
  split
  · split
    · exact Socket.grows_addToFDSET _ _ _
    · exact .refl _
  · exact .refl _

theorem grows_addToFDSETR (p : ConnectionPeer) (set : FdSet) (maxFd : Int) :
    Grows (set, maxFd) (p.addToFDSETR set maxFd) :=
  (grows_addIfBytes _ _ _ _).trans (grows_addIfBytes _ _ _ _)

theorem grows_addToFDSETW (p : ConnectionPeer) (set : FdSet) (maxFd : Int) :
    Grows (set, maxFd) (p.addToFDSETW set maxFd) :=
  (grows_addIfBytes _ _ _ _).trans (grows_addIfBytes _ _ _ _)

theorem watched_addToFDSETR (hs : p.socket e = some s) (hselectable : s.Selectable)
    (hroom : (p.bufferFor e.other).bytesToReceive ≠ 0) (set : FdSet) (maxFd : Int) :
    s.Watched (p.addToFDSETR set maxFd) := by
  cases e with
  | client =>
      have hclient : p.pClient = some s := hs
      rw [addToFDSETR, hclient]
      exact (grows_addIfBytes _ _ _ _).watched (watched_addIfBytes hselectable hroom set maxFd)
  | server =>
      have hserver : p.pServer = some s := hs
      rw [addToFDSETR, hserver]
      exact watched_addIfBytes hselectable hroom _ _

theorem watched_addToFDSETW (hs : p.socket e = some s) (hselectable : s.Selectable)
    (hpending : (p.bufferFor e).bytesToSend ≠ 0) (set : FdSet) (maxFd : Int) :
    s.Watched (p.addToFDSETW set maxFd) := by
  cases e with
  | client =>
      have hclient : p.pClient = some s := hs
      rw [addToFDSETW, hclient]
      exact (grows_addIfBytes _ _ _ _).watched (watched_addIfBytes hselectable hpending set maxFd)
  | server =>
      have hserver : p.pServer = some s := hs
      rw [addToFDSETW, hserver]
      exact watched_addIfBytes hselectable hpending _ _

theorem addToFDSETW_of_nothing (h : ∀ d, (p.bufferFor d).bytesToSend = 0) (set : FdSet)
    (maxFd : Int) : p.addToFDSETW set maxFd = (set, maxFd) := by
  have hnot : ∀ ptr d set, addIfBytes ptr (p.bufferFor d).bytesToSend set maxFd = (set, maxFd) := by
    intro ptr d set
    rw [h d]
    cases ptr with
    | none => rfl
    | some s => rfl
  exact (congrArg (fun r => addIfBytes p.pServer (p.bufferFor .server).bytesToSend r.1 r.2)
    (hnot p.pClient .client set)).trans (hnot p.pServer .server set)

theorem watched_addToFDSETC (hs : p.pServer = some s) (hselectable : s.Selectable)
    (setr setw : FdSet) (maxFd : Int) : s.Watched (p.addToFDSETC setr setw maxFd).2 := by
  rw [addToFDSETC, hs]
  exact Socket.watched_addToFDSET hselectable setw _

/-! ## Every direction has started over -/

def StartsOver (p : ConnectionPeer) : Prop := ∀ d, (p.bufferFor d).StartsOver

namespace StartsOver

theorem emit (h : p.StartsOver) (ev : Event) : (p.emit ev).StartsOver := by
  intro d
  rw [bufferFor_emit]
  exact h d

theorem post (h : p.StartsOver) (id : UInt32) : (p.post id).StartsOver := by
  intro d
  rw [bufferFor_post]
  exact h d

theorem setBufferFor (h : p.StartsOver) {b : Buffer} (hb : b.StartsOver) (e : Endpoint) :
    (p.setBufferFor e b).StartsOver := by
  intro d
  rcases d.eq_or_other e with rfl | rfl
  · rwa [bufferFor_setBufferFor_self]
  · rw [bufferFor_setBufferFor_other]
    exact h _

theorem closeEndpoint (h : p.StartsOver) (e : Endpoint) : (p.closeEndpoint e).StartsOver := by
  refine p.closeEndpoint_induct e (I := StartsOver) (fun q d hq x => ?_) h
  rcases x.eq_or_other d with rfl | rfl
  · rw [bufferFor_drop_self]
    exact Buffer.startsOver_reset _
  · rw [bufferFor_drop_other]
    exact hq _

theorem getMissingDataFrom (h : p.StartsOver) (e : Endpoint)
    (disconnected lost : ConnectionPeer → UInt32) (io : SocketIO) :
    (p.getMissingDataFrom e disconnected lost io).StartsOver := by
  simp only [ConnectionPeer.getMissingDataFrom]
  split_ifs with hcall hret hneg hend
  · apply (h.emit _).setBufferFor
    exact Buffer.startsOver_received _ (by omega)
  · exact ((h.emit _).closeEndpoint e).post _
  · exact ((h.emit _).closeEndpoint e).post _
  · exact h.emit _
  · exact h

theorem sendMissingDataTo (h : p.StartsOver) (e : Endpoint) (disconnected lost : UInt32)
    (io : SocketIO) : (p.sendMissingDataTo e disconnected lost io).StartsOver := by
  have hsent : ∀ ev n, ((p.emit ev).setBufferFor e ((p.bufferFor e).sent n)).StartsOver :=
    fun ev n => (h.emit ev).setBufferFor (Buffer.startsOver_sent _ n) e
  simp only [ConnectionPeer.sendMissingDataTo]
  split_ifs with hcall hret hlast hneg hend
  · exact ((hsent _ _).closeEndpoint e).post _
  · exact hsent _ _
  · exact ((h.emit _).closeEndpoint e).post _
  · exact ((h.emit _).closeEndpoint e).post _
  · exact h.emit _
  · exact h

theorem checkEndpoint (h : p.StartsOver) (e : Endpoint) (lost : UInt32) (io : SocketIO) :
    (p.checkEndpoint e lost io).StartsOver := by
  simp only [ConnectionPeer.checkEndpoint]
  split_ifs
  · exact ((h.emit _).closeEndpoint e).post _
  · exact h.emit _
  · exact h

end StartsOver

theorem kept_startsOver : Kept StartsOver where
  getMissingDataFromClient _ io h := h.getMissingDataFrom .client _ _ io
  getMissingDataFromServer _ io h := h.getMissingDataFrom .server _ _ io
  sendMissingDataToClient _ io h := h.sendMissingDataTo .client _ _ io
  sendMissingDataToServer _ io h := h.sendMissingDataTo .server _ _ io
  checkServer _ io h := h.checkEndpoint .server _ io
  checkClient _ io h := h.checkEndpoint .client _ io
  establish p h _ := by
    apply StartsOver.post
    intro d
    cases d with
    | client => exact h .client
    | server => exact h .server
  finish _ e h _ _ := (h.closeEndpoint e).post _

/-! ## What is left has something to send -/

/-- An endpoint without counterpart has bytes pending for it. -/
def LeftPending (p : ConnectionPeer) : Prop :=
  ∀ d, (p.socket d).isSome → p.socket d.other = none → (p.bufferFor d).bytesToSend ≠ 0

namespace LeftPending

theorem of_closed (h : ∀ d, p.socket d = none) : p.LeftPending := by
  intro d hopen
  rw [h d] at hopen
  cases hopen

theorem of_open (h : ∀ d, (p.socket d).isSome) : p.LeftPending := by
  intro d _ hother
  have hopen := h d.other
  rw [hother] at hopen
  cases hopen

theorem sameEnds (h : p.LeftPending) (hq : p.SameEnds q)
    (hpending : ∀ d, (p.socket d).isSome → p.socket d.other = none →
      (p.bufferFor d).bytesToSend ≠ 0 → (q.bufferFor d).bytesToSend ≠ 0) : q.LeftPending := by
  intro d hopen hother
  rw [hq.socket] at hopen hother
  exact hpending d hopen hother (h d hopen hother)

theorem closedBy (hq : p.ClosedBy e id q) : q.LeftPending := by
  intro d hopen _
  rcases d.eq_or_other e with rfl | rfl
  · rw [hq.closed] at hopen
    cases hopen
  · by_cases hfollows : p.Follows e
    · rw [hq.closed_of_follows hfollows] at hopen
      cases hopen
    · rw [hq.other, if_neg hfollows] at hopen
      rw [hq.pending hfollows]
      exact fun hz => hfollows ⟨hopen, .inl hz⟩

theorem reads (h : p.LeftPending) (hq : p.Reads e io q) : q.LeftPending := by
  refine h.sameEnds hq.same fun d hopen hother hpending => ?_
  rcases d.eq_or_other e with rfl | rfl
  · rwa [hq.buffer]
  · rw [hq.pending]
    omega

theorem sendMissingDataTo (h : p.LeftPending) (disconnected lost : UInt32) :
    (p.sendMissingDataTo e disconnected lost io).LeftPending := by
  by_cases hf : p.SendFails e io
  · obtain ⟨id, -, hq⟩ := sendMissingDataTo_of_fails disconnected lost hf
    exact closedBy hq
  by_cases hd : p.Drains e io
  · exact closedBy (sendMissingDataTo_of_drains disconnected lost hd)
  have hq := sendMissingDataTo_of_not_fails disconnected lost hf hd
  refine h.sameEnds hq.same fun d hopen hother hpending => ?_
  rcases d.eq_or_other e with rfl | rfl
  · -- sending the last of it would have drained the peer
    intro hnothing
    rw [hq.pending] at hnothing
    have hle := bytesSent_le p d io
    exact hd ⟨hopen, hother, hpending, by omega⟩
  · rwa [hq.buffer]

theorem checkEndpoint (h : p.LeftPending) (lost : UInt32) :
    (p.checkEndpoint e lost io).LeftPending := by
  by_cases hf : p.CheckFails e io
  · exact closedBy (checkEndpoint_of_fails lost hf)
  · obtain ⟨hsame, hbuf⟩ := checkEndpoint_of_not_fails lost hf
    refine h.sameEnds hsame fun d _ _ hpending => ?_
    rwa [hbuf]

end LeftPending

theorem kept_leftPending : Kept LeftPending where
  getMissingDataFromClient p io h := by
    by_cases hf : p.ReadFails .client io
    · obtain ⟨id, -, hq⟩ := getMissingDataFromClient_of_fails hf
      exact .closedBy hq
    · exact h.reads (getMissingDataFromClient_of_not_fails hf)
  getMissingDataFromServer p io h := by
    by_cases hf : p.ReadFails .server io
    · obtain ⟨id, -, hq⟩ := getMissingDataFromServer_of_fails hf
      exact .closedBy hq
    · exact h.reads (getMissingDataFromServer_of_not_fails hf)
  sendMissingDataToClient _ _ h := h.sendMissingDataTo _ _
  sendMissingDataToServer _ _ h := h.sendMissingDataTo _ _
  checkServer _ _ h := h.checkEndpoint _
  checkClient _ _ h := h.checkEndpoint _
  establish p h _ := by
    intro d hopen hother
    rw [socket_post] at hopen hother
    rw [bufferFor_post]
    cases d with
    | client => exact h .client hopen hother
    | server => exact h .server hopen hother
  finish p e _ hother _ := by
    refine .of_closed fun d => ?_
    rw [socket_post]
    rcases d.eq_or_other e with rfl | rfl
    · exact socket_closeEndpoint_self p d
    · exact closed_closeEndpoint hother

/-! ## Sockets that stay -/

variable {D : Int → Prop}

/-- The descriptors of the open sockets are in `D`. -/
def Within (D : Int → Prop) (p : ConnectionPeer) : Prop :=
  ∀ e s, p.socket e = some s → D s.sock

theorem Shrinks.socket_eq (h : p.Shrinks q) (hs : q.socket e = some s) : p.socket e = some s := by
  rcases h e with hq | hq
  · rw [hq] at hs
    cases hs
  · exact hq.symm.trans hs

theorem Shrinks.within (h : p.Shrinks q) (hp : p.Within D) : q.Within D :=
  fun e s hs => hp e s (h.socket_eq hs)

theorem shrinks_closeEndpoint (p : ConnectionPeer) (e : Endpoint) :
    p.Shrinks (p.closeEndpoint e) := by
  apply p.closeEndpoint_induct e (I := p.Shrinks)
  · intro q d hq x
    rcases x.eq_or_other d with rfl | rfl
    · exact .inl (q.socket_drop_self x)
    · rw [socket_drop_other]
      exact hq d.other
  · exact (SameEnds.refl p).shrinks

theorem shrinks_checkEndpoint {lost : UInt32} {io : SocketIO} :
    p.Shrinks (p.checkEndpoint e lost io) := by
  by_cases hf : p.CheckFails e io
  · exact (checkEndpoint_of_fails lost hf).shrinks
  · exact (checkEndpoint_of_not_fails lost hf).1.shrinks

theorem Shrinks.post (h : p.Shrinks q) (id : UInt32) : p.Shrinks (q.post id) := by
  intro d
  rw [socket_post]
  exact h d

theorem kept_shrinks (p : ConnectionPeer) : Kept p.Shrinks where
  getMissingDataFromClient _ _ h := h.trans shrinks_getMissingDataFrom
  getMissingDataFromServer _ _ h := h.trans shrinks_getMissingDataFrom
  sendMissingDataToClient _ _ h := h.trans shrinks_sendMissingDataTo
  sendMissingDataToServer _ _ h := h.trans shrinks_sendMissingDataTo
  checkServer _ _ h := h.trans shrinks_checkEndpoint
  checkClient _ _ h := h.trans shrinks_checkEndpoint
  establish q h _ := by
    apply Shrinks.post
    intro d
    cases d with
    | client => exact h .client
    | server => exact h .server
  finish q e h _ _ := (h.trans (q.shrinks_closeEndpoint e)).post _

theorem shrinks_perform (p : ConnectionPeer) (op : Op) : Always p.Shrinks (p.perform op) := by
  by_cases hop : p.EndsPeer op
  · have hclosed := (isActive_eq_false _).mp (inactive_of_endsPeer hop)
    exact fun d => .inl (hclosed d)
  · exact (kept_shrinks p).perform (SameEnds.refl p).shrinks hop

theorem Within.perform (h : p.Within D) {op : Op} (hq : p.perform op = .ok q) : q.Within D := by
  have hshrinks := p.shrinks_perform op
  rw [hq] at hshrinks
  exact Shrinks.within hshrinks h

/-! ## Runs -/

/-- `select` and `isInFDSET` take the descriptors of the open sockets. -/
def SelectableEnds (p : ConnectionPeer) : Prop := p.Within fun fd => 0 < fd ∧ fd < fdSetSize

structure Steady (p : ConnectionPeer) : Prop where
  startsOver : p.StartsOver
  leftPending : p.LeftPending
  selectableEnds : p.SelectableEnds

theorem startsOver_of_endsPeer (h : p.StartsOver) {op : Op} (hop : p.EndsPeer op) :
    (final (p.perform op)).StartsOver := by
  rcases perform_of_endsPeer hop with hq | ⟨-, hq⟩
  · rw [hq]
    exact ((h.closeEndpoint .client).closeEndpoint .server).post _
  · rw [hq]
    exact (h.closeEndpoint .server).post _

theorem Steady.perform (h : p.Steady) {op : Op} (hq : p.perform op = .ok q) : q.Steady := by
  have halways : Always (fun q => q.StartsOver ∧ q.LeftPending) (p.perform op) := by
    by_cases hop : p.EndsPeer op
    · exact ⟨startsOver_of_endsPeer h.startsOver hop,
        .of_closed ((isActive_eq_false _).mp (inactive_of_endsPeer hop))⟩
    · exact ⟨kept_startsOver.perform h.startsOver hop, kept_leftPending.perform h.leftPending hop⟩
  rw [hq] at halways
  exact ⟨halways.1, halways.2, h.selectableEnds.perform hq⟩

theorem steady_create {memory : Endpoint → Nat → UInt8} {c s : Socket} {jq : Bool}
    {info : Option Ptr} (hc : c.Selectable) (hs : s.Selectable) :
    (create memory (some c) (some s) jq info).Steady := by
  refine ⟨fun d => ?_, .of_open fun d => ?_, fun d t ht => ?_⟩
  · cases d with
    | client => exact Buffer.startsOver_reset _
    | server => exact Buffer.startsOver_reset _
  · cases d with
    | client => rfl
    | server => rfl
  · cases d with
    | client =>
        obtain rfl := Option.some.inj ht
        exact hc
    | server =>
        obtain rfl := Option.some.inj ht
        exact hs

/-- What `select` looks at for a peer between two operations. -/
structure Registered (p : ConnectionPeer) : Prop where
  /-- Established with both endpoints open, for each direction the source or the destination. -/
  established : p.pServerConnected = true → ∀ e source destination,
    p.socket e.other = some source → p.socket e = some destination →
      (∀ setr maxFd, source.Watched (p.addToFDSETR setr maxFd)) ∨
        ∀ setw maxFd, destination.Watched (p.addToFDSETW setw maxFd)
  /-- An endpoint that is left, which has bytes pending. -/
  oneOpen : ∀ e s, p.socket e = some s → p.socket e.other = none →
    (p.bufferFor e).bytesToSend ≠ 0 ∧ ∀ setw maxFd, s.Watched (p.addToFDSETW setw maxFd)
  /-- While connecting, the server. -/
  connecting : ∀ s, p.pServerConnected = false → p.pServer = some s →
    ∀ setr setw maxFd, s.Watched (p.addToFDSETC setr setw maxFd).2

theorem Steady.registered (h : p.Steady) (hsound : ∀ d, (p.bufferFor d).Sound) :
    p.Registered where
  established _ e source destination hsource hdestination := by
    rcases (hsound e).room_or_pending (h.startsOver e) with hroom | hpending
    · left
      exact watched_addToFDSETR hsource (h.selectableEnds _ _ hsource)
        (by rwa [Endpoint.other_other])
    · exact .inr (watched_addToFDSETW hdestination (h.selectableEnds _ _ hdestination) hpending)
  oneOpen e s hs hother := by
    have hpending := h.leftPending e (by rw [hs]; rfl) hother
    exact ⟨hpending, watched_addToFDSETW hs (h.selectableEnds _ _ hs) hpending⟩
  connecting s _ hs := watched_addToFDSETC hs (h.selectableEnds .server s hs)

theorem Registered.watched (h : p.Registered) (hconnected : p.pServerConnected = true)
    (hactive : p.isActive = true) :
    ∃ d s, p.socket d = some s ∧ ((∀ setr maxFd, s.Watched (p.addToFDSETR setr maxFd)) ∨
      ∀ setw maxFd, s.Watched (p.addToFDSETW setw maxFd)) := by
  cases hclient : p.socket .client with
  | none =>
      cases hserver : p.socket .server with
      | none =>
          have hinactive : p.isActive = false := by
            rw [isActive_eq_false]
            intro d
            cases d with
            | client => exact hclient
            | server => exact hserver
          rw [hinactive] at hactive
          cases hactive
      | some s => exact ⟨.server, s, hserver, .inr (h.oneOpen .server s hserver hclient).2⟩
  | some c =>
      cases hserver : p.socket .server with
      | none => exact ⟨.client, c, hclient, .inr (h.oneOpen .client c hclient hserver).2⟩
      | some s =>
          rcases h.established hconnected .client s c hserver hclient with hsource | hdestination
          · exact ⟨.server, s, hserver, .inl hsource⟩
          · exact ⟨.client, c, hclient, .inr hdestination⟩

end ConnectionPeer

/-! ## The sets of a manager -/

namespace FdSets

variable {a b c : FdSets} {p : ConnectionPeer}

structure Grows (a b : FdSets) : Prop where
  setr : Relb.Grows (a.setr, a.maxFd) (b.setr, b.maxFd)
  setw : Relb.Grows (a.setw, a.maxFd) (b.setw, b.maxFd)

theorem Grows.refl (a : FdSets) : a.Grows a := ⟨.refl _, .refl _⟩

theorem Grows.trans (h : a.Grows b) (h' : b.Grows c) : a.Grows c :=
  ⟨h.setr.trans h'.setr, h.setw.trans h'.setw⟩

/-- `select` looks at a socket of the peer. -/
def Watches (sets : FdSets) (p : ConnectionPeer) : Prop :=
  ∃ d s, p.socket d = some s ∧
    (s.Watched (sets.setr, sets.maxFd) ∨ s.Watched (sets.setw, sets.maxFd))

theorem Grows.watches (h : a.Grows b) (hp : a.Watches p) : b.Watches p := by
  obtain ⟨d, s, hs, hwatched⟩ := hp
  exact ⟨d, s, hs, hwatched.imp h.setr.watched h.setw.watched⟩

theorem grows_addPeer (sets : FdSets) (p : ConnectionPeer) : sets.Grows (sets.addPeer p) := by
  have hread := p.grows_addToFDSETR sets.setr sets.maxFd
  have hwrite := p.grows_addToFDSETW sets.setw (p.addToFDSETR sets.setr sets.maxFd).2
  exact ⟨⟨hread.marked, Int.le_trans hread.maxFd hwrite.maxFd⟩,
    ⟨hwrite.marked, Int.le_trans hread.maxFd hwrite.maxFd⟩⟩

theorem watches_addPeer (h : p.Registered) (hconnected : p.pServerConnected = true)
    (hactive : p.isActive = true) (sets : FdSets) : (sets.addPeer p).Watches p := by
  have hwrite := p.grows_addToFDSETW sets.setw (p.addToFDSETR sets.setr sets.maxFd).2
  obtain ⟨d, s, hs, hwatched | hwatched⟩ := h.watched hconnected hactive
  · have hread := hwatched sets.setr sets.maxFd
    exact ⟨d, s, hs, .inl ⟨hread.selectable, hread.marked,
      Int.le_trans hread.le_maxFd hwrite.maxFd⟩⟩
  · exact ⟨d, s, hs, .inr (hwatched _ _)⟩

theorem grows_addConnectingPeer (sets : FdSets) (p : ConnectionPeer) :
    sets.Grows (sets.addConnectingPeer p) := by
  have hread := ConnectionPeer.grows_addIfBytes p.pClient p.bufferForServer.bytesToReceive
    sets.setr sets.maxFd
  unfold addConnectingPeer ConnectionPeer.addToFDSETC
  cases p.pServer with
  | none => exact ⟨hread, ⟨fun _ h => h, hread.maxFd⟩⟩
  | some s =>
      have hwrite := s.grows_addToFDSET sets.setw (ConnectionPeer.addIfBytes p.pClient
        p.bufferForServer.bytesToReceive sets.setr sets.maxFd).2
      exact ⟨⟨hread.marked, Int.le_trans hread.maxFd hwrite.maxFd⟩,
        ⟨hwrite.marked, Int.le_trans hread.maxFd hwrite.maxFd⟩⟩

/-- `select` looks at the server of the peer, to find out whether it is writable. -/
def WatchesServer (sets : FdSets) (p : ConnectionPeer) : Prop :=
  ∃ s, p.pServer = some s ∧ s.Watched (sets.setw, sets.maxFd)

theorem Grows.watchesServer (h : a.Grows b) (hp : a.WatchesServer p) : b.WatchesServer p := by
  obtain ⟨s, hs, hwatched⟩ := hp
  exact ⟨s, hs, h.setw.watched hwatched⟩

theorem watchesServer_addConnectingPeer (h : p.Registered) (hwaiting : p.pServerConnected = false)
    (hserver : p.pServer.isSome) (sets : FdSets) : (sets.addConnectingPeer p).WatchesServer p := by
  obtain ⟨s, hs⟩ := Option.isSome_iff_exists.mp hserver
  exact ⟨s, hs, h.connecting s hwaiting hs sets.setr sets.setw sets.maxFd⟩

end FdSets

/-! ## What is marked -/

/-- Only descriptors in `D` are marked. -/
def MarksOnly (D : Int → Prop) (set : FdSet) : Prop := ∀ d, set d = true → D d

section Marks

variable {D : Int → Prop} {set : FdSet}

theorem MarksOnly.mark (h : MarksOnly D set) {fd : Int} (hfd : D fd) :
    MarksOnly D fun d => d == fd || set d := by
  intro d hd
  simp only [Bool.or_eq_true, beq_iff_eq] at hd
  rcases hd with rfl | hd
  · exact hfd
  · exact h d hd

theorem MarksOnly.addIfBytes (h : MarksOnly D set) {ptr : Option Socket}
    (hptr : ∀ s, ptr = some s → D s.sock) (bytes : Nat) (maxFd : Int) :
    MarksOnly D (ConnectionPeer.addIfBytes ptr bytes set maxFd).1 := by
  cases ptr with
  | none => exact h
  | some s =>
      unfold ConnectionPeer.addIfBytes
      dsimp only
      split
      · exact h.mark (hptr s rfl)
      · exact h

end Marks

namespace FdSets

variable {D : Int → Prop} {sets : FdSets} {p : ConnectionPeer}

structure Within (D : Int → Prop) (sets : FdSets) : Prop where
  setr : MarksOnly D sets.setr
  setw : MarksOnly D sets.setw

theorem within_zero (D : Int → Prop) : zero.Within D where
  setr _ hd := nomatch hd
  setw _ hd := nomatch hd

theorem Within.addPeer (h : sets.Within D) (hp : p.Within D) : (sets.addPeer p).Within D where
  setr := (h.setr.addIfBytes (hp .client) _ _).addIfBytes (hp .server) _ _
  setw := (h.setw.addIfBytes (hp .client) _ _).addIfBytes (hp .server) _ _

theorem Within.addConnectingPeer (h : sets.Within D) (hp : p.Within D) :
    (sets.addConnectingPeer p).Within D := by
  have hread := h.setr.addIfBytes (hp .client) p.bufferForServer.bytesToReceive sets.maxFd
  unfold FdSets.addConnectingPeer ConnectionPeer.addToFDSETC
  cases hs : p.pServer with
  | none => exact ⟨hread, h.setw⟩
  | some s => exact ⟨hread, h.setw.mark (hp .server s hs)⟩

end FdSets

/-! ## Peers in the hands of a manager -/

namespace Managed

open ConnectionPeer

variable {m t : Managed} {step : Step}

/-- The list that a peer is on says whether its server is connected. -/
def InPlace (m : Managed) : Prop :=
  m.promoted = false ∧ m.peer.Awaiting ∨ m.promoted = true ∧ m.peer.Arrived

/-- What a manager does with a peer is one of its public operations. -/
theorem perform_peer (h : m.perform step = .ok t) : ∃ op, m.peer.perform op = .ok t.peer := by
  cases step with
  | manage setr setw io =>
      cases hm : m.promoted with
      | true =>
          simp only [perform, hm, if_true] at h
          split at h
          · rename_i q hq
            obtain rfl := Except.ok.inj h
            exact ⟨.manageConnections setr setw io, hq⟩
          · cases h
      | false =>
          simp only [perform, hm, Bool.false_eq_true, if_false] at h
          split at h
          · rename_i changed q hq
            obtain rfl := Except.ok.inj h
            exact ⟨.manageConnectingPeer setr setw io, by rw [ConnectionPeer.perform, hq]; rfl⟩
          · cases h
  | check io =>
      obtain rfl := Except.ok.inj h
      refine ⟨.checkPeers io, congrArg Except.ok ?_⟩
      exact (ite_self _).symm
  | closeRequest =>
      obtain rfl := Except.ok.inj h
      exact ⟨.closePInfo m.peer.pinfo, rfl⟩

theorem InPlace.perform (h : m.InPlace) (ht : m.perform step = .ok t) : t.InPlace := by
  rcases h with ⟨hm, hp⟩ | ⟨hm, hp⟩
  · cases step with
    | manage setr setw io =>
        obtain ⟨changed, q, hq, -, hcases⟩ := hp.manageConnectingPeer setr setw io
        rw [perform_manage_connecting hm hq] at ht
        obtain rfl := Except.ok.inj ht
        exact hcases.imp_right fun hest => ⟨hest.1, hp.arrived hest.2⟩
    | check io =>
        simp only [Managed.perform, hm, Bool.false_eq_true, if_false] at ht
        obtain rfl := Except.ok.inj ht
        exact .inl ⟨rfl, hp.checkConnectingPeers io⟩
    | closeRequest =>
        obtain rfl := Except.ok.inj ht
        exact .inl ⟨hm, hp.closePInfo _⟩
  · cases step with
    | manage setr setw io =>
        simp only [Managed.perform, hm, if_true] at ht
        split at ht
        · rename_i q hq
          obtain rfl := Except.ok.inj ht
          have hphase : m.peer.InPhase (.manageConnections setr setw io) := hp.connected
          exact .inr ⟨rfl, hp.perform hphase hq⟩
        · cases ht
    | check io =>
        simp only [Managed.perform, hm, if_true] at ht
        obtain rfl := Except.ok.inj ht
        have hphase : m.peer.InPhase (.checkPeers io) := hp.connected
        exact .inr ⟨rfl, hp.perform hphase rfl⟩
    | closeRequest =>
        obtain rfl := Except.ok.inj ht
        have hphase : m.peer.InPhase (.closePInfo m.peer.pinfo) := trivial
        exact .inr ⟨hm, hp.perform hphase rfl⟩

/-- What `select` looks at for a peer that is registered in the way of its list. -/
def WatchedBy (m : Managed) (sets : FdSets) : Prop :=
  if m.promoted then (sets.addPeer m.peer).Watches m.peer
  else (sets.addConnectingPeer m.peer).WatchesServer m.peer

theorem InPlace.watchedBy (h : m.InPlace) (hregistered : m.peer.Registered)
    (hactive : m.peer.isActive = true) (sets : FdSets) : m.WatchedBy sets := by
  rcases h with ⟨hm, hp⟩ | ⟨hm, hp⟩
  · rw [WatchedBy, if_neg (by simp [hm])]
    exact FdSets.watchesServer_addConnectingPeer hregistered hp.notConnected
      (hp.bothOrNone.opened hactive).2 sets
  · rw [WatchedBy, if_pos hm]
    exact FdSets.watches_addPeer hregistered hp.connected hactive sets

end Managed

namespace ConnectionPeer

/-- Whatever becomes of the peer `start`, the sockets that can take it on are watched; and in the
hands of a manager it is registered for at least one of them as long as it is active. -/
structure NeverWedged (start : ConnectionPeer) : Prop where
  registered : ∀ p, Reach (fun p op q => perform p op = .ok q) anyStep (· = start) p →
    p.Registered
  watched : ∀ m, Reach (fun m step t => Managed.perform m step = .ok t) anyStep
      (· = ⟨start, false⟩) m →
    m.peer.isActive = true → ∀ sets, m.WatchedBy sets

variable {p q : ConnectionPeer} {io : SocketIO} {setr setw : FdSet}
  {memory : Endpoint → Nat → UInt8} {c s : Socket} {jq : Bool} {info : Option Ptr}

theorem neverWedged_of_selectable (hc : c.Selectable) (hs : s.Selectable) :
    (create memory (some c) (some s) jq info).NeverWedged := by
  have hregistered : ∀ p, Reach (fun p op q => perform p op = .ok q) anyStep
      (· = create memory (some c) (some s) jq info) p → p.Registered := by
    intro p hp
    have hsteady : p.Steady := by
      refine Reach.invariant (I := Steady) ?_ (fun p op q h _ hq => h.perform hq) hp
      rintro p rfl
      exact steady_create hc hs
    have hreach : p.Reachable := by
      refine Reach.invariant (I := Reachable) ?_ (fun p op q h _ hq => h.perform op hq) hp
      rintro p rfl
      exact .start ⟨memory, some c, some s, jq, info, rfl⟩
    exact hsteady.registered fun d => ((sane_of_reachable hreach).faithful d).sound
  refine ⟨hregistered, fun m hm hactive sets => ?_⟩
  have hboth : m.InPlace ∧ Reach (fun p op q => perform p op = .ok q) anyStep
      (· = create memory (some c) (some s) jq info) m.peer := by
    refine Reach.invariant (I := fun m : Managed => m.InPlace ∧ Reach
      (fun p op q => perform p op = .ok q) anyStep
        (· = create memory (some c) (some s) jq info) m.peer) ?_ ?_ hm
    · rintro m rfl
      exact ⟨.inl ⟨rfl, CreatedOpen.awaiting ⟨memory, c, s, jq, info, rfl⟩⟩, .start rfl⟩
    · intro m step t ⟨hplace, hp⟩ _ ht
      obtain ⟨op, hop⟩ := Managed.perform_peer ht
      exact ⟨hplace.perform ht, .next hp trivial hop⟩
  exact hboth.1.watchedBy (hregistered m.peer hboth.2) hactive sets

theorem perform_establish (hs : s.Selectable) :
    (create memory (some c) (some s) jq info).perform
        (.manageConnectingPeer (fun _ => false) (fun fd => fd == s.sock) .idle) =
      .ok ({ create memory (some c) (some s) jq info with pServerConnected := true }.post
        statusConnectionEstablished) := by
  have hpositive : s.sock > 0 := hs.1
  have hclient : c.isInFDSET (fun _ => false) = false := by simp [Socket.isInFDSET]
  have hserver : s.isInFDSET (fun fd => fd == s.sock) = true := by
    simp [Socket.isInFDSET, hpositive]
  simp [perform, manageConnectingPeer, connectBoth, isInFDSET, create, hclient, hserver,
    Except.map, bind, Except.bind, pure, Except.pure]

/-- The server is watched while it is connected, and then one end of the empty direction, which has
nothing to be sent. -/
theorem selectable_of_neverWedged
    (h : (create memory (some c) (some s) jq info).NeverWedged) : c.Selectable ∧ s.Selectable := by
  have hstart := h.registered _ (.start rfl)
  have hs : s.Selectable :=
    (hstart.connecting s rfl rfl (fun _ => false) (fun _ => false) 0).selectable
  have hestablished := h.registered _ (.next (.start rfl) trivial (perform_establish hs))
  rcases hestablished.established (pServerConnected_post _ _) .server c s (by rw [socket_post]; rfl)
    (by rw [socket_post]; rfl) with hsource | hdestination
  · exact ⟨(hsource (fun _ => false) 0).selectable, hs⟩
  · have hmarked := (hdestination (fun _ => false) 0).marked
    rw [addToFDSETW_of_nothing fun d => by rw [bufferFor_post]; cases d <;> rfl] at hmarked
    cases hmarked

/-- The relay of a connection never wedges, exactly if `FD_SET` and `isInFDSET` take the descriptors
of both sockets. -/
theorem relay_never_wedged_iff (memory : Endpoint → Nat → UInt8) (c s : Socket) (jq : Bool)
    (info : Option Ptr) :
    (create memory (some c) (some s) jq info).NeverWedged ↔ c.Selectable ∧ s.Selectable :=
  ⟨selectable_of_neverWedged, fun h => neverWedged_of_selectable h.1 h.2⟩

/-! ## A server that could not be created -/

/-- A descriptor that `isInFDSET` never reports keeps the call from returning true. -/
theorem Awaiting.not_promoted (h : p.Awaiting) (hserver : ∀ s, p.pServer = some s → s.sock ≤ 0)
    {changed : Bool} (hq : p.manageConnectingPeer setr setw io = .ok (changed, q)) :
    changed = false := by
  rcases h.bothOrNone.ends with hopen | hclosed
  · have hboth : p.pClient.isSome ∧ p.pServer.isSome := ⟨hopen .client, hopen .server⟩
    obtain ⟨c, hc⟩ := Option.isSome_iff_exists.mp hboth.1
    rw [ConnectionPeer.manageConnectingPeer, if_pos hboth, connectBoth_eq hc] at hq
    have hshrinks : p.Shrinks (if c.isInFDSET setr then p.getMissingDataFromClient io else p) := by
      split
      · exact shrinks_getMissingDataFrom
      · exact (SameEnds.refl p).shrinks
    generalize (if c.isInFDSET setr then p.getMissingDataFromClient io else p) = r at hq hshrinks
    cases hs : r.pServer with
    | none =>
        simp only [hs] at hq
        exact (Prod.mk.inj (Except.ok.inj hq)).1.symm
    | some s =>
        have hsame : p.pServer = some s := hshrinks.socket_eq (e := .server) hs
        have hnot : s.isInFDSET setw = false := by
          rw [Socket.isInFDSET, if_neg (by have := hserver s hsame; omega)]
        simp only [hs, hnot, Bool.false_eq_true, if_false] at hq
        exact (Prod.mk.inj (Except.ok.inj hq)).1.symm
  · rw [manageConnectingPeer_of_closed hclosed] at hq
    exact (Prod.mk.inj (Except.ok.inj hq)).1.symm

/-- Such a peer stays on the list of the connecting ones for ever. -/
theorem never_promoted (hs : s.sock ≤ 0) {m : Managed}
    (hm : Reach (fun m step t => Managed.perform m step = .ok t) anyStep
      (· = ⟨create memory (some c) (some s) jq info, false⟩) m) : m.promoted = false := by
  have hkept : m.promoted = false ∧ m.peer.Awaiting ∧
      (create memory (some c) (some s) jq info).Shrinks m.peer := by
    refine Reach.invariant (I := fun m : Managed => m.promoted = false ∧ m.peer.Awaiting ∧
      (create memory (some c) (some s) jq info).Shrinks m.peer) ?_ ?_ hm
    · rintro m rfl
      exact ⟨rfl, CreatedOpen.awaiting ⟨memory, c, s, jq, info, rfl⟩, (SameEnds.refl _).shrinks⟩
    · intro m step t ⟨hpromoted, hawaiting, hshrinks⟩ _ ht
      obtain ⟨op, hop⟩ := Managed.perform_peer ht
      have halways := m.peer.shrinks_perform op
      rw [hop] at halways
      have hnext := hshrinks.trans (show m.peer.Shrinks t.peer from halways)
      cases step with
      | manage setr setw io =>
          obtain ⟨changed, q, hq, -, hcases⟩ := hawaiting.manageConnectingPeer setr setw io
          rw [Managed.perform_manage_connecting hpromoted hq] at ht
          obtain rfl := Except.ok.inj ht
          have hchanged : changed = false := by
            refine hawaiting.not_promoted (fun s' hs' => ?_) hq
            obtain rfl : s = s' := Option.some.inj (hshrinks.socket_eq (e := .server) hs')
            exact hs
          rcases hcases with hwaiting | hest
          · exact ⟨hchanged, hwaiting.2, hnext⟩
          · rw [hchanged] at hest
            cases hest.1
      | check io | closeRequest =>
          have hplace := Managed.InPlace.perform (.inl ⟨hpromoted, hawaiting⟩) ht
          obtain rfl := Except.ok.inj ht
          rcases hplace with hplace | hplace
          · exact ⟨hplace.1, hplace.2, hnext⟩
          · rw [show _ = false from hpromoted] at hplace
            cases hplace.1
  exact hkept.1

namespace Sample

/-- The client came on descriptor `5`, and `socket` failed for its server. -/
def failedServer : ConnectionPeer :=
  .create (fun _ _ => 0) (some ⟨5, ⟨10, 0, 0, 1⟩, 1000⟩) (some ⟨-1, ⟨10, 0, 0, 2⟩, 80⟩) true
    (some 1)

end Sample

/-- The peer is active, `select` cannot look at its server, and it stays with the connecting ones
whatever the sets and the sockets say. -/
theorem failed_server_wedges : ¬Sample.failedServer.NeverWedged ∧
    Sample.failedServer.isActive = true ∧
      ∀ m, Reach (fun m step t => Managed.perform m step = .ok t) anyStep
        (· = ⟨Sample.failedServer, false⟩) m → m.promoted = false := by
  refine ⟨fun h => ?_, rfl, fun m hm => never_promoted (by decide) hm⟩
  exact absurd (selectable_of_neverWedged h).2 (by decide)

end ConnectionPeer

end Relb
