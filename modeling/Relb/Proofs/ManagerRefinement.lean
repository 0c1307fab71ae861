import Relb.Lib.Simulation
import Relb.Proofs.ManagerPeers
/-!
# The iterations of `execute` stand for its statements

`Model.ThreadedConnectionManager` takes each iteration of a loop of `execute` for one step. Here a
run of the thread, statement by statement and with other threads in between, is followed by a run
of these iterations: a peer that changes lists has changed them when `manageConnectingPeer` has
said so, an inactive peer is gone when it leaves its list, and a close request is served when it
has been passed to the last peer. This holds as long as no request comes in while one is being
served.
-/

namespace Relb

open Lib

namespace ThreadedConnectionManager

def listOf (m : ThreadedConnectionManager) : PeerKind → List ConnectionPeer
  | .connected => m.peerList
  | .connecting => m.connectingPeerList

def setPeers (m : ThreadedConnectionManager) (kind : PeerKind) (l : List ConnectionPeer) :
    ThreadedConnectionManager :=
  match kind with
  | .connected => { m with peerList := l }
  | .connecting => { m with connectingPeerList := l }

def removal (place : PeerPlace) : Op :=
  match place.kind with
  | .connected => .removePeer place.index
  | .connecting => .removeConnectingPeer place.index

def check (place : PeerPlace) (io : SocketIO) : Op :=
  match place.kind with
  | .connected => .checkPeers place.index io
  | .connecting => .checkConnectingPeers place.index io

variable {m : ThreadedConnectionManager} {p : ConnectionPeer}

theorem perform_removal {place : PeerPlace} (hp : (m.listOf place.kind)[place.index]? = some p)
    (hactive : p.isActive = false) : m.perform (removal place) =
      some (m.setPeers place.kind ((m.listOf place.kind).eraseIdx place.index), []) := by
  obtain ⟨kind, i⟩ := place
  cases kind with
  | connected =>
      change m.peerList[i]? = some p at hp
      simp only [removal, perform, removePeer, hp, hactive]
      rfl
  | connecting =>
      change m.connectingPeerList[i]? = some p at hp
      simp only [removal, perform, removeConnectingPeer, hp, hactive]
      rfl

theorem perform_check {place : PeerPlace} (hp : (m.listOf place.kind)[place.index]? = some p)
    (io : SocketIO) : m.perform (check place io) =
      some (m.setPeers place.kind
          ((m.listOf place.kind).set place.index (ManagerThread.checked place.kind p io)),
        p.newMessages (ManagerThread.checked place.kind p io)) := by
  obtain ⟨kind, i⟩ := place
  cases kind with
  | connected =>
      change m.peerList[i]? = some p at hp
      simp only [check, perform, checkPeers, hp]
      rfl
  | connecting =>
      change m.connectingPeerList[i]? = some p at hp
      simp only [check, perform, checkConnectingPeers, hp]
      rfl

end ThreadedConnectionManager

/-- A manager that goes from one iteration to the next, with all messages that its peers have
posted. -/
structure IteratedManager where
  manager : ThreadedConnectionManager
  messages : List Message

namespace IteratedManager

def create : IteratedManager := ⟨.create, []⟩

inductive Op
  | addConnectionPeer (peer : ConnectionPeer)
  | closePInfo (pinfo : Option Ptr)
  | iterate (op : ThreadedConnectionManager.Op)

def perform (a : IteratedManager) : Op → Option IteratedManager
  | .addConnectionPeer peer => some { a with manager := a.manager.addConnectionPeer peer }
  | .closePInfo pinfo => some { a with manager := a.manager.closePInfo pinfo }
  | .iterate op => (a.manager.perform op).map fun r => ⟨r.1, a.messages ++ r.2⟩

def Reaches (a b : IteratedManager) : Prop :=
  Reach (fun a op b => a.perform op = some b) anyStep (· = a) b

variable {a b : IteratedManager}

theorem Reaches.refl (a : IteratedManager) : a.Reaches a := .start rfl

theorem reaches_of_perform {op : Op} (h : a.perform op = some b) : a.Reaches b :=
  .one trivial h

theorem reaches_of_iterate {op : ThreadedConnectionManager.Op} {t : ThreadedConnectionManager}
    {msgs : List Message} (h : a.manager.perform op = some (t, msgs)) :
    a.Reaches ⟨t, a.messages ++ msgs⟩ := by
  have hop : a.perform (.iterate op) = some ⟨t, a.messages ++ msgs⟩ := by
    rw [perform, h]
    rfl
  exact reaches_of_perform hop

end IteratedManager

/-- A request is being served. -/
def ManagerPoint.serving : ManagerPoint → Bool
  | .purge (.top _) | .purge (.offer _ _ _) | .purge .pop => true
  | _ => false

/-- Between two iterations, or where one has changed nothing yet. -/
def ManagerPoint.Between : ManagerPoint → Prop
  | .purge (.top _) | .purge (.offer _ _ _) | .purge .pop | .leave _ _ | .join _ _ => False
  | _ => True

/-! ## A request on its way through the lists -/

namespace ManagerThread

/-- The request on top has been passed to the first `n` peers. -/
def offered (top : Option Ptr) (n : Nat) (l : List ConnectionPeer) : List ConnectionPeer :=
  (l.take n).map (·.closePInfo top) ++ l.drop n

/-- What the first `n` peers have posted then. -/
def answers (top : Option Ptr) (n : Nat) (l : List ConnectionPeer) : List Message :=
  (l.take n).flatMap fun p => p.newMessages (p.closePInfo top)

section Offered

variable {top : Option Ptr} {n : Nat} {l : List ConnectionPeer} {p : ConnectionPeer}

theorem offered_zero : offered top 0 l = l := by
  rw [offered, List.take_zero, List.map_nil, List.nil_append, List.drop_zero]

theorem offered_length : offered top l.length l = l.map (·.closePInfo top) := by
  rw [offered, List.take_length, List.drop_length, List.append_nil]

theorem answers_length :
    answers top l.length l = l.flatMap fun p => p.newMessages (p.closePInfo top) := by
  rw [answers, List.take_length]

theorem length_offered : (offered top n l).length = l.length := by
  rw [offered, List.length_append, List.length_map, List.length_take, List.length_drop]
  omega

theorem getElem?_offered (hn : n ≤ l.length) : (offered top n l)[n]? = l[n]? := by
  have hlength : ((l.take n).map (·.closePInfo top)).length = n := by
    rw [List.length_map, List.length_take]
    omega
  rw [offered, List.getElem?_append_right (by omega), hlength, Nat.sub_self, List.getElem?_drop,
    Nat.add_zero]

theorem offered_succ (hp : l[n]? = some p) :
    offered top (n + 1) l = (offered top n l).set n (p.closePInfo top) := by
  obtain ⟨hn, rfl⟩ := List.getElem?_eq_some_iff.mp hp
  have hlength : ((l.take n).map (·.closePInfo top)).length = n := by
    rw [List.length_map, List.length_take]
    omega
  rw [offered, offered, List.set_append_right _ _ (by omega), hlength, Nat.sub_self,
    List.drop_eq_getElem_cons hn, List.set_cons_zero, List.take_add_one, hp, List.map_append,
    List.append_assoc]
  rfl

theorem answers_succ (hp : l[n]? = some p) :
    answers top (n + 1) l = answers top n l ++ p.newMessages (p.closePInfo top) := by
  rw [answers, answers, List.take_add_one, hp, List.flatMap_append]
  exact congrArg _ (List.append_nil _)

theorem offered_append (hn : n ≤ l.length) (p : ConnectionPeer) :
    offered top n (l ++ [p]) = offered top n l ++ [p] := by
  rw [offered, offered, List.take_append_of_le_length hn, List.drop_append_of_le_length hn,
    List.append_assoc]

theorem answers_append (hn : n ≤ l.length) (p : ConnectionPeer) :
    answers top n (l ++ [p]) = answers top n l := by
  rw [answers, answers, List.take_append_of_le_length hn]

end Offered

/-! ## What a state of the thread stands for -/

/-- The lists, the requests and the messages are the same. -/
structure Shows (m : ManagerThread) (a : IteratedManager) : Prop where
  peers : ∀ kind, (m.peers kind).map PeerObject.peer = a.manager.listOf kind
  requests : m.toBeClosed = a.manager.toBeClosed
  messages : m.messages = a.messages

/-- How many peers of a list have been asked when the scan has come to a place. -/
def asked (a : IteratedManager) (place : PeerPlace) : PeerKind → Nat
  | .connected =>
      match place.kind with
      | .connected => place.index
      | .connecting => a.manager.peerList.length
  | .connecting =>
      match place.kind with
      | .connected => 0
      | .connecting => place.index

/-- The request on top has come as far as a place. -/
structure Scans (m : ManagerThread) (a : IteratedManager) (place : PeerPlace)
    (top : Option Ptr) : Prop where
  peers : ∀ kind, (m.peers kind).map PeerObject.peer =
    offered top (asked a place kind) (a.manager.listOf kind)
  requests : m.toBeClosed = a.manager.toBeClosed
  onTop : a.manager.toBeClosed.getLast? = some top
  messages : m.messages = a.messages ++
    (answers top (asked a place .connected) a.manager.peerList ++
      answers top (asked a place .connecting) a.manager.connectingPeerList)
  index_le : place.index ≤ (a.manager.listOf place.kind).length

/-- The thread when it has ended the iteration that it is in. -/
def completed (m : ManagerThread) : ManagerThread :=
  match m.point with
  | .purge .pop => { m with toBeClosed := m.toBeClosed.dropLast }
  | .leave i p =>
      { m with
        connectingPeerList := m.connectingPeerList.eraseIdx i
        peerList := m.peerList ++ [p] }
  | .join _ p => { m with peerList := m.peerList ++ [p] }
  | _ => m

/-- Until a request has been passed to all peers, it is still to be served. -/
def Represents (m : ManagerThread) (a : IteratedManager) : Prop :=
  match m.point with
  | .purge (.top place) => ∃ top, m.Scans a place top
  | .purge (.offer place _ top) => m.Scans a place top
  | _ => m.completed.Shows a

section Steps

variable {m t : ManagerThread} {a b : IteratedManager} {p : PeerObject} {place : PeerPlace}
  {q : ConnectionPeer} {fd0 : Int} {capacity : Nat}

/-- A run of iterations leads to what `t` stands for. -/
def Followed (a : IteratedManager) (t : ManagerThread) : Prop :=
  ∃ b, a.Reaches b ∧ t.Represents b

theorem Followed.stays (h : t.Represents a) : Followed a t := ⟨a, .refl a, h⟩

namespace Shows

theorem getElem? (h : m.Shows a) {kind : PeerKind} {i : Nat} (hp : (m.peers kind)[i]? = some p) :
    (a.manager.listOf kind)[i]? = some p.peer := by
  rw [← h.peers kind, List.getElem?_map, hp]
  rfl

theorem update (h : m.Shows a) (p : PeerObject) (q : ConnectionPeer) :
    (m.update place p q).Shows
      ⟨a.manager.setPeers place.kind ((a.manager.listOf place.kind).set place.index q),
        a.messages ++ p.peer.newMessages q⟩ := by
  obtain ⟨kind, i⟩ := place
  have hset : ((m.peers kind).set i { p with peer := q }).map PeerObject.peer =
      (a.manager.listOf kind).set i q := by
    rw [List.map_set, h.peers]
  have hmessages : m.messages ++ p.peer.newMessages q = a.messages ++ p.peer.newMessages q :=
    congrArg (· ++ p.peer.newMessages q) h.messages
  cases kind with
  | connected =>
      refine ⟨fun other => ?_, h.requests, hmessages⟩
      cases other with
      | connected => exact hset
      | connecting => exact h.peers .connecting
  | connecting =>
      refine ⟨fun other => ?_, h.requests, hmessages⟩
      cases other with
      | connected => exact h.peers .connected
      | connecting => exact hset

theorem erase (h : m.Shows a) (place : PeerPlace) :
    (m.setPeers place.kind ((m.peers place.kind).eraseIdx place.index)).Shows
      ⟨a.manager.setPeers place.kind ((a.manager.listOf place.kind).eraseIdx place.index),
        a.messages⟩ := by
  obtain ⟨kind, i⟩ := place
  have herase : ((m.peers kind).eraseIdx i).map PeerObject.peer =
      (a.manager.listOf kind).eraseIdx i := by
    rw [← List.eraseIdx_map, h.peers]
  cases kind with
  | connected =>
      refine ⟨fun other => ?_, h.requests, h.messages⟩
      cases other with
      | connected => exact herase
      | connecting => exact h.peers .connecting
  | connecting =>
      refine ⟨fun other => ?_, h.requests, h.messages⟩
      cases other with
      | connected => exact h.peers .connected
      | connecting => exact herase

theorem scans (h : m.Shows a) {top : Option Ptr} (htop : m.toBeClosed.getLast? = some top)
    (point : ManagerPoint) : (m.goto point).Scans a ⟨.connected, 0⟩ top where
  peers kind := by
    rw [peers_goto, h.peers kind]
    cases kind <;> exact offered_zero.symm
  requests := h.requests
  onTop := h.requests ▸ htop
  messages := h.messages.trans (List.append_nil _).symm
  index_le := Nat.zero_le _

end Shows

namespace Scans

variable {top : Option Ptr}

theorem length_peers (h : m.Scans a place top) (kind : PeerKind) :
    (m.peers kind).length = (a.manager.listOf kind).length := by
  have hlength := congrArg List.length (h.peers kind)
  rwa [List.length_map, length_offered] at hlength

theorem goto (h : m.Scans a place top) (point : ManagerPoint) : (m.goto point).Scans a place top :=
  ⟨fun kind => by rw [peers_goto, h.peers kind], h.requests, h.onTop, h.messages, h.index_le⟩

/-- The next peer is asked. -/
theorem offer (h : m.Scans a place top) (hp : (m.peers place.kind)[place.index]? = some p)
    (point : ManagerPoint) :
    ((m.update place p (p.peer.closePInfo top)).goto point).Scans a place.next top := by
  have hmessages := h.messages
  have hpeers := h.peers
  have hnext : (a.manager.listOf place.kind)[place.index]? = some p.peer := by
    have hoffered : asked a place place.kind = place.index := by
      obtain ⟨kind, i⟩ := place
      cases kind <;> rfl
    have hsame : (offered top place.index (a.manager.listOf place.kind))[place.index]? =
        (a.manager.listOf place.kind)[place.index]? := getElem?_offered h.index_le
    rw [← hsame, ← hoffered, ← h.peers, hoffered, List.getElem?_map, hp]
    rfl
  obtain ⟨kind, i⟩ := place
  have hset : ((m.peers kind).set i { p with peer := p.peer.closePInfo top }).map
      PeerObject.peer = offered top (i + 1) (a.manager.listOf kind) := by
    rw [List.map_set, hpeers, offered_succ hnext]
    cases kind <;> rfl
  have hanswers : answers top (i + 1) (a.manager.listOf kind) = _ := answers_succ hnext
  have hlt := (List.getElem?_eq_some_iff.mp hnext).1
  cases kind with
  | connected =>
      refine ⟨fun other => ?_, h.requests, h.onTop, ?_, hlt⟩
      · cases other with
        | connected => exact hset
        | connecting => exact hpeers .connecting
      · change m.messages ++ _ = a.messages ++ (answers top (i + 1) a.manager.peerList ++ [])
        change answers top (i + 1) a.manager.peerList = _ at hanswers
        rw [hmessages, hanswers, List.append_nil, List.append_assoc]
        exact congrArg (a.messages ++ ·) (congrArg (· ++ _) (List.append_nil _))
  | connecting =>
      refine ⟨fun other => ?_, h.requests, h.onTop, ?_, hlt⟩
      · cases other with
        | connected => exact hpeers .connected
        | connecting => exact hset
      · change m.messages ++ _ = a.messages ++ (answers top a.manager.peerList.length _ ++
          answers top (i + 1) a.manager.connectingPeerList)
        change answers top (i + 1) a.manager.connectingPeerList = _ at hanswers
        rw [hmessages, hanswers, List.append_assoc, List.append_assoc]
        rfl

theorem turns {i : Nat} (h : m.Scans a ⟨.connected, i⟩ top) (hle : m.peerList.length ≤ i)
    (point : ManagerPoint) : (m.goto point).Scans a ⟨.connecting, 0⟩ top := by
  have hlength := h.length_peers .connected
  have hindex := h.index_le
  obtain rfl : i = a.manager.peerList.length := by
    change m.peerList.length = a.manager.peerList.length at hlength
    change i ≤ a.manager.peerList.length at hindex
    omega
  have h' := h.goto point
  refine ⟨fun kind => ?_, h'.requests, h'.onTop, h'.messages, Nat.zero_le _⟩
  rw [h'.peers kind]
  cases kind <;> rfl

theorem served {i : Nat} (h : m.Scans a ⟨.connecting, i⟩ top)
    (hle : m.connectingPeerList.length ≤ i) : Followed a (m.goto (.purge .pop)) := by
  have hlength := h.length_peers .connecting
  have hindex := h.index_le
  obtain rfl : i = a.manager.connectingPeerList.length := by
    change m.connectingPeerList.length = a.manager.connectingPeerList.length at hlength
    change i ≤ a.manager.connectingPeerList.length at hindex
    omega
  have hserve : a.manager.perform .serveRequest = some
      (⟨a.manager.peerList.map (·.closePInfo top),
          a.manager.connectingPeerList.map (·.closePInfo top), a.manager.toBeClosed.dropLast⟩,
        (a.manager.peerList ++ a.manager.connectingPeerList).flatMap fun p =>
          p.newMessages (p.closePInfo top)) := by
    rw [ThreadedConnectionManager.perform, ThreadedConnectionManager.serveRequest, h.onTop]
  refine ⟨_, IteratedManager.reaches_of_iterate hserve, fun kind => ?_, ?_, ?_⟩
  · cases kind with
    | connected => exact (h.peers .connected).trans offered_length
    | connecting => exact (h.peers .connecting).trans offered_length
  · exact congrArg List.dropLast h.requests
  · rw [List.flatMap_append, ← answers_length, ← answers_length]
    exact h.messages

end Scans

theorem Represents.shows (h : m.Represents a) {point : ManagerPoint} (hpoint : m.point = point)
    (hbetween : point.Between) : m.Shows a := by
  subst hpoint
  unfold Represents at h
  split at h <;> rename_i hpoint
  · rw [hpoint] at hbetween
    exact hbetween.elim
  · rw [hpoint] at hbetween
    exact hbetween.elim
  · unfold completed at h
    split at h <;> rename_i hpoint'
    · rw [hpoint'] at hbetween
      exact hbetween.elim
    · rw [hpoint'] at hbetween
      exact hbetween.elim
    · rw [hpoint'] at hbetween
      exact hbetween.elim
    · exact h

theorem Shows.represents (h : t.Shows a) (hbetween : t.point.Between) : t.Represents a := by
  unfold Represents
  split <;> rename_i hpoint
  · rw [hpoint] at hbetween
    exact hbetween.elim
  · rw [hpoint] at hbetween
    exact hbetween.elim
  · unfold completed
    split <;> rename_i hpoint'
    · rw [hpoint'] at hbetween
      exact hbetween.elim
    · rw [hpoint'] at hbetween
      exact hbetween.elim
    · rw [hpoint'] at hbetween
      exact hbetween.elim
    · exact h

/-- A step that changes neither the lists nor the requests, from one point between two iterations
to another one. -/
theorem Represents.moves (h : m.Represents a) {point : ManagerPoint} (hpoint : m.point = point)
    (hbetween : point.Between) (ht : t.point.Between) (hpeers : ∀ kind, t.peers kind = m.peers kind)
    (hrequests : t.toBeClosed = m.toBeClosed) (hmessages : t.messages = m.messages) :
    Followed a t := by
  have hshows := h.shows hpoint hbetween
  refine .stays (Shows.represents ⟨fun kind => ?_, ?_, ?_⟩ ht)
  · rw [hpeers kind, hshows.peers kind]
  · rw [hrequests, hshows.requests]
  · rw [hmessages, hshows.messages]

theorem followed_advanced (h : m.Represents a) (hplace : m.InPlace) (hsparing : m.Sparing)
    (hfinish : m.finish = false) (hstep : m.Advanced t) : Followed a t := by
  have hcleaning : ∀ {point : ManagerPoint}, m.point = point → point.Cleaning → False := by
    intro point hpoint hclean
    have hset := hsparing.cleaning (hpoint ▸ hclean)
    rw [hfinish] at hset
    cases hset
  cases hstep with
  | finishes hpoint hset =>
      rw [hfinish] at hset
      cases hset
  | begins hpoint _ => exact h.moves hpoint trivial trivial (peers_goto m _) rfl rfl
  | scans hpoint hrequests =>
      obtain ⟨top, htop⟩ := Option.isSome_iff_exists.mp (List.getLast?_isSome.mpr hrequests)
      exact .stays ⟨top, (h.shows hpoint trivial).scans htop _⟩
  | purged hpoint hrequests => exact h.moves hpoint trivial trivial (peers_goto m _) rfl rfl
  | tops place top hpoint hlt htop =>
      rw [Represents, hpoint] at h
      obtain ⟨top', hscans⟩ := h
      obtain rfl : top' = top :=
        Option.some.inj ((hscans.requests ▸ hscans.onTop).symm.trans htop)
      exact .stays (hscans.goto _)
  | behind place hpoint hle =>
      rw [Represents, hpoint] at h
      obtain ⟨top, hscans⟩ := h
      obtain ⟨kind, i⟩ := place
      cases kind with
      | connected => exact .stays ⟨top, hscans.turns hle _⟩
      | connecting => exact hscans.served hle
  | offers place height top p hpoint hp =>
      rw [Represents, hpoint] at h
      exact .stays ⟨top, h.offer hp _⟩
  | pops hpoint hrequests =>
      rw [Represents, hpoint] at h
      change m.completed.Shows a at h
      rw [completed, hpoint] at h
      exact .stays (Shows.represents ⟨h.peers, h.requests, h.messages⟩ trivial)
  | registers hpoint => exact h.moves hpoint trivial trivial (fun _ => rfl) rfl rfl
  | registerNext place hpoint hlt =>
      exact h.moves hpoint trivial trivial (peers_goto m _) rfl rfl
  | registered place hpoint hle =>
      obtain ⟨kind, i⟩ := place
      cases kind <;> exact h.moves hpoint trivial trivial (fun _ => rfl) rfl rfl
  | adds place p hpoint hp _ hactive =>
      exact h.moves hpoint trivial trivial (fun _ => rfl) rfl rfl
  | drops place p hpoint hp hdrop => exact h.moves hpoint trivial trivial (peers_goto m _) rfl rfl
  | removes place p hpoint =>
      have htaken := hsparing.taken hfinish
      rw [hpoint] at htaken
      rw [InPlace, hpoint] at hplace
      have hshows := h.shows hpoint trivial
      have hnew := hshows.erase place
      have hremoval := ThreadedConnectionManager.perform_removal (hshows.getElem? hplace) htaken
      refine ⟨_, IteratedManager.reaches_of_iterate hremoval, Shows.represents ?_ trivial⟩
      rw [List.append_nil]
      exact ⟨fun kind => (peers_goto _ _ kind) ▸ hnew.peers kind, hnew.requests, hnew.messages⟩
  | deletes place p hpoint => exact h.moves hpoint trivial trivial (fun _ => rfl) rfl rfl
  | skipsSelect hpoint _ => exact h.moves hpoint trivial trivial (peers_goto m _) rfl rfl
  | selects hpoint _ => exact h.moves hpoint trivial trivial (fun _ => rfl) rfl rfl
  | checksSocket ret c hpoint hc => exact h.moves hpoint trivial trivial (fun _ => rfl) rfl rfl
  | manageNext i hpoint hlt => exact h.moves hpoint trivial trivial (peers_goto m _) rfl rfl
  | managed i hpoint hle => exact h.moves hpoint trivial trivial (peers_goto m _) rfl rfl
  | manages i p q io hpoint hp hq =>
      have hshows := h.shows hpoint trivial
      have hnew : (m.update ⟨.connected, i⟩ p q).Shows _ := hshows.update p q
      have hlisted : (m.peers .connected)[i]? = some p := hp
      have hget : a.manager.peerList[i]? = some p.peer := hshows.getElem? hlisted
      have hop : a.manager.perform (.manageConnections i m.sets.setr m.sets.setw io) =
          some ({ a.manager with peerList := a.manager.peerList.set i q },
            p.peer.newMessages q) := by
        simp only [ThreadedConnectionManager.perform,
          ThreadedConnectionManager.manageConnections, hget, hq]
      exact ⟨_, IteratedManager.reaches_of_iterate hop,
        Shows.represents ⟨hnew.peers, hnew.requests, hnew.messages⟩ trivial⟩
  | promoteNext i hpoint hlt => exact h.moves hpoint trivial trivial (peers_goto m _) rfl rfl
  | promoted i hpoint hle => exact h.moves hpoint trivial trivial (peers_goto m _) rfl rfl
  | promotes i p changed q io hpoint hp hq =>
      have hshows := h.shows hpoint trivial
      have hlisted : (m.peers .connecting)[i]? = some p := hp
      have hget : a.manager.connectingPeerList[i]? = some p.peer := hshows.getElem? hlisted
      cases changed with
      | false =>
          have hnew : (m.update ⟨.connecting, i⟩ p q).Shows _ := hshows.update p q
          have hop : a.manager.perform (.manageConnectingPeer i m.sets.setr m.sets.setw io) =
              some ({ a.manager with
                connectingPeerList := a.manager.connectingPeerList.set i q },
                  p.peer.newMessages q) := by
            simp only [ThreadedConnectionManager.perform,
              ThreadedConnectionManager.manageConnectingPeer, hget, hq]
          exact ⟨_, IteratedManager.reaches_of_iterate hop,
            Shows.represents ⟨hnew.peers, hnew.requests, hnew.messages⟩ trivial⟩
      | true =>
          have hop : a.manager.perform (.manageConnectingPeer i m.sets.setr m.sets.setw io) =
              some ({ a.manager with
                connectingPeerList := a.manager.connectingPeerList.eraseIdx i
                peerList := a.manager.peerList ++ [q] }, p.peer.newMessages q) := by
            simp only [ThreadedConnectionManager.perform,
              ThreadedConnectionManager.manageConnectingPeer, hget, hq]
          refine ⟨_, IteratedManager.reaches_of_iterate hop, fun kind => ?_, hshows.requests, ?_⟩
          · cases kind with
            | connected =>
                change (m.peerList ++ [_]).map _ = _
                rw [List.map_append]
                exact congrArg (· ++ [q]) (hshows.peers .connected)
            | connecting =>
                change ((m.connectingPeerList.set i _).eraseIdx i).map _ = _
                rw [List.eraseIdx_set_eq, ← List.eraseIdx_map]
                exact congrArg (List.eraseIdx · i) (hshows.peers .connecting)
          · exact congrArg (· ++ p.peer.newMessages q) hshows.messages
  | leaves i p hpoint =>
      rw [Represents, hpoint] at h
      change m.completed.Shows a at h
      rw [completed, hpoint] at h
      exact .stays ⟨h.peers, h.requests, h.messages⟩
  | joins i p hpoint =>
      rw [Represents, hpoint] at h
      change m.completed.Shows a at h
      rw [completed, hpoint] at h
      exact .stays (Shows.represents ⟨h.peers, h.requests, h.messages⟩ trivial)
  | checksBad ret c hpoint hc =>
      refine h.moves hpoint trivial ?_ (fun _ => rfl) rfl rfl
      dsimp only
      split <;> trivial
  | checkNext place hpoint hlt => exact h.moves hpoint trivial trivial (peers_goto m _) rfl rfl
  | checked place hpoint hle =>
      obtain ⟨kind, i⟩ := place
      cases kind <;> exact h.moves hpoint trivial trivial (peers_goto m _) rfl rfl
  | checks place p io hpoint hp =>
      have hshows := h.shows hpoint trivial
      have hnew : (m.update place p (checked place.kind p.peer io)).Shows _ := hshows.update p _
      have hop := ThreadedConnectionManager.perform_check (hshows.getElem? hp) io
      exact ⟨_, IteratedManager.reaches_of_iterate hop, Shows.represents
        ⟨fun kind => (peers_goto _ _ kind) ▸ hnew.peers kind, hnew.requests, hnew.messages⟩
        trivial⟩
  | cleans kind p rest hpoint hpeers => exact (hcleaning hpoint trivial).elim
  | cleaned kind hpoint hpeers => exact (hcleaning hpoint trivial).elim
  | forgets pinfo rest hpoint hrequests => exact (hcleaning hpoint trivial).elim
  | ends hpoint hrequests => exact (hcleaning hpoint trivial).elim

/-! ## The other threads -/

/-- What the thread does not look at. -/
theorem Represents.of_eq (h : m.Represents a) (hpoint : t.point = m.point)
    (hpeers : t.peerList = m.peerList) (hconnecting : t.connectingPeerList = m.connectingPeerList)
    (hrequests : t.toBeClosed = m.toBeClosed) (hmessages : t.messages = m.messages) :
    t.Represents a := by
  have hlists : ∀ kind, t.peers kind = m.peers kind := by
    intro kind
    cases kind with
    | connected => exact hpeers
    | connecting => exact hconnecting
  have hscans : ∀ {place : PeerPlace} {top : Option Ptr}, m.Scans a place top →
      t.Scans a place top := by
    intro place top hscans
    exact ⟨fun kind => (congrArg _ (hlists kind)).trans (hscans.peers kind),
      hrequests.trans hscans.requests, hscans.onTop, hmessages.trans hscans.messages,
      hscans.index_le⟩
  unfold Represents at h ⊢
  rw [hpoint]
  split at h
  · exact h.imp fun top => hscans
  · exact hscans h
  · have hsame : ∀ kind, t.completed.peers kind = m.completed.peers kind := by
      intro kind
      unfold completed
      rw [hpoint]
      cases kind <;> split <;> simp only [peers, hpeers, hconnecting]
    have hlog : t.completed.messages = m.completed.messages := by
      unfold completed
      rw [hpoint]
      split <;> exact hmessages
    have hpending : t.completed.toBeClosed = m.completed.toBeClosed := by
      unfold completed
      rw [hpoint]
      split <;> first | exact hrequests | exact congrArg List.dropLast hrequests
    exact ⟨fun kind => (congrArg _ (hsame kind)).trans (h.peers kind), hpending.trans h.requests,
      hlog.trans h.messages⟩

/-- A peer is added behind those that the thread has to do with. -/
theorem Scans.addPeer {top : Option Ptr} (h : m.Scans a place top) (p : PeerObject) :
    Scans { m with connectingPeerList := m.connectingPeerList ++ [p] }
      { a with manager := a.manager.addConnectionPeer p.peer } place top := by
  obtain ⟨kind, i⟩ := place
  have hle := h.index_le
  have hbound : asked a ⟨kind, i⟩ .connecting ≤ a.manager.connectingPeerList.length := by
    cases kind with
    | connected => exact Nat.zero_le _
    | connecting => exact hle
  refine ⟨fun other => ?_, h.requests, h.onTop, ?_, ?_⟩
  · cases other with
    | connected => exact h.peers .connected
    | connecting =>
        change (m.connectingPeerList ++ [p]).map _ = offered top (asked a ⟨kind, i⟩ .connecting)
          (a.manager.connectingPeerList ++ [p.peer])
        rw [List.map_append, offered_append hbound]
        exact congrArg (· ++ [p.peer]) (h.peers .connecting)
  · change m.messages = a.messages ++ (answers top (asked a ⟨kind, i⟩ .connected) _ ++
      answers top (asked a ⟨kind, i⟩ .connecting) (a.manager.connectingPeerList ++ [p.peer]))
    rw [answers_append hbound]
    exact h.messages
  · cases kind with
    | connected => exact hle
    | connecting =>
        change i ≤ (a.manager.connectingPeerList ++ [p.peer]).length
        rw [List.length_append]
        exact Nat.le_trans hle (Nat.le_add_right _ _)

theorem Shows.addPeer (h : m.Shows a) (p : PeerObject) :
    Shows { m with connectingPeerList := m.connectingPeerList ++ [p] }
      { a with manager := a.manager.addConnectionPeer p.peer } := by
  refine ⟨fun kind => ?_, h.requests, h.messages⟩
  cases kind with
  | connected => exact h.peers .connected
  | connecting =>
      change (m.connectingPeerList ++ [p]).map _ = _
      rw [List.map_append]
      exact congrArg (· ++ [p.peer]) (h.peers .connecting)

theorem completed_addPeer (hplace : m.InPlace) (p : PeerObject) :
    completed { m with connectingPeerList := m.connectingPeerList ++ [p] } =
      { m.completed with connectingPeerList := m.completed.connectingPeerList ++ [p] } := by
  unfold completed
  dsimp only
  split <;> rename_i hpoint
  · rfl
  · rw [InPlace, hpoint] at hplace
    have hlt := (List.getElem?_eq_some_iff.mp hplace).1
    rw [List.eraseIdx_append_of_lt_length hlt]
  · rfl
  · rfl

theorem Represents.addPeer (h : m.Represents a) (hplace : m.InPlace) (p : PeerObject) :
    Represents { m with connectingPeerList := m.connectingPeerList ++ [p] }
      { a with manager := a.manager.addConnectionPeer p.peer } := by
  unfold Represents at h ⊢
  dsimp only
  split at h
  · exact h.imp fun top hscans => hscans.addPeer p
  · exact Scans.addPeer h p
  · rw [completed_addPeer hplace p]
    exact Shows.addPeer h p

theorem Represents.request (h : m.Represents a) (hserving : m.point.serving = false)
    (pinfo : Option Ptr) : Represents { m with toBeClosed := m.toBeClosed ++ [pinfo] }
      { a with manager := a.manager.closePInfo pinfo } := by
  have hcompleted : completed { m with toBeClosed := m.toBeClosed ++ [pinfo] } =
      { m.completed with toBeClosed := m.completed.toBeClosed ++ [pinfo] } := by
    unfold completed
    dsimp only
    split <;> rename_i hpoint
    · rw [hpoint] at hserving
      cases hserving
    · rfl
    · rfl
    · rfl
  unfold Represents at h ⊢
  dsimp only
  split at h <;> rename_i hpoint
  · rw [hpoint] at hserving
    cases hserving
  · rw [hpoint] at hserving
    cases hserving
  · rw [hcompleted]
    exact ⟨h.peers, congrArg (· ++ [pinfo]) h.requests, h.messages⟩

/-- `to_be_closed.add( pinfo )` is what comes next. -/
def requesting (m : ManagerThread) : Op → Bool
  | .caller k =>
      match m.callers[k]? with
      | some (.closePInfo _) => true
      | _ => false
  | _ => false

/-- The destructor has not been called yet, and no request comes in while one is being served. -/
def Undisturbed (m : ManagerThread) (op : Op) : Prop :=
  m.finish = false ∧ (m.requesting op = true → m.point.serving = false)

instance (m : ManagerThread) (op : Op) : Decidable (m.Undisturbed op) :=
  inferInstanceAs (Decidable (_ ∧ _))

theorem followed_stepped {op : Op} (h : m.Represents a) (hplace : m.InPlace)
    (hsparing : m.Sparing) (hguard : m.Undisturbed op) (hstep : m.Stepped op t) :
    Followed a t := by
  obtain ⟨hfinish, hrequest⟩ := hguard
  cases hstep with
  | advance io t hstep => exact followed_advanced h hplace hsparing hfinish hstep
  | select answer hpoint =>
      cases answer with
      | ready setr setw => exact h.moves hpoint trivial trivial (fun _ => rfl) rfl rfl
      | badDescriptor => exact h.moves hpoint trivial trivial (peers_goto m _) rfl rfl
      | other => exact h.moves hpoint trivial trivial (peers_goto m _) rfl rfl
  | waitfor hpoint hset hwaited =>
      rw [hfinish] at hset
      cases hset
  | addConnectionPeer peer => exact .stays (h.of_eq rfl rfl rfl rfl rfl)
  | closePInfo pinfo => exact .stays (h.of_eq rfl rfl rfl rfl rfl)
  | destroy => exact .stays (h.of_eq rfl rfl rfl rfl rfl)
  | caller k caller t rest hcaller hcalled =>
      cases hcalled with
      | counts p => exact .stays (h.of_eq rfl rfl rfl rfl rfl)
      | addsPeer p =>
          have hop : a.perform (.addConnectionPeer p.peer) =
              some { a with manager := a.manager.addConnectionPeer p.peer } := rfl
          exact ⟨_, IteratedManager.reaches_of_perform hop,
            (h.addPeer hplace p).of_eq rfl rfl rfl rfl rfl⟩
      | requests pinfo =>
          have hop : a.perform (.closePInfo pinfo) =
              some { a with manager := a.manager.closePInfo pinfo } := rfl
          have hserving := hrequest (by rw [requesting, hcaller])
          exact ⟨_, IteratedManager.reaches_of_perform hop,
            (h.request hserving pinfo).of_eq rfl rfl rfl rfl rfl⟩
      | destroys => exact .stays (h.of_eq rfl rfl rfl rfl rfl)
      | posts c hc => exact .stays (h.of_eq rfl rfl rfl rfl rfl)

theorem simulation (hfd : 0 < fd0) : Simulation (fun m op t => m.perform op = some t) Undisturbed
    (· = create (.create fd0 capacity)) (fun a op b => a.perform op = some b) anyStep
    (· = IteratedManager.create) (Reachable fd0 capacity) Represents where
  start m hm := by
    subst hm
    refine ⟨_, rfl, Shows.represents ⟨fun kind => ?_, rfl, rfl⟩ trivial⟩
    cases kind <;> rfl
  follow m op t a hm h hguard hstep :=
    followed_stepped h (hm.standing hfd).inPlace (hm.conserved hfd).2 hguard (stepped_perform hstep)

end Steps

end ManagerThread

end Relb
