import Relb.Model.SocketCalls
import Relb.Proofs.PeerRule
/-!
# Whose descriptors a peer touches

A descriptor is a number, and the system gives the number of a closed descriptor out again at once.
A call on a descriptor that has been closed, or a second close, hits the connection of another
client. Each `Socket` forgets its number when it closes, and a peer forgets its `Socket`; so
whatever the threads do between the calls of a peer, it touches its own descriptors only, and it
gives each of them back once.
-/

namespace Relb

open Lib HandleOp

/-! ## The descriptors behind the objects -/

namespace SocketObjects

variable {objs objs' : SocketObjects} {e : Endpoint} {s : Socket} {o : Option Socket} {fd : Int}

/-- The descriptor belongs to one of the objects. -/
def Has (objs : SocketObjects) (fd : Int) : Prop := ∃ e s, objs e = some s ∧ s.sock = fd ∧ 0 ≤ fd

theorem has_iff : objs.Has fd ↔ 0 ≤ fd ∧
    ((objs .client).any (·.sock = fd) = true ∨ (objs .server).any (·.sock = fd) = true) := by
  simp only [Option.any_eq_true, decide_eq_true_eq]
  constructor
  · rintro ⟨e, s, he, hs, hfd⟩
    refine ⟨hfd, ?_⟩
    cases e with
    | client => exact .inl ⟨s, he, hs⟩
    | server => exact .inr ⟨s, he, hs⟩
  · rintro ⟨hfd, ⟨s, he, hs⟩ | ⟨s, he, hs⟩⟩
    · exact ⟨_, s, he, hs, hfd⟩
    · exact ⟨_, s, he, hs, hfd⟩

instance (objs : SocketObjects) (fd : Int) : Decidable (objs.Has fd) :=
  decidable_of_iff _ has_iff.symm

def held (objs : SocketObjects) (fd : Int) : Bool := decide (objs.Has fd)

/-- The two objects do not share a descriptor, and neither has the descriptor 0, which `Socket`
takes for none. -/
structure Sound (objs : SocketObjects) : Prop where
  nonzero : ∀ e s, objs e = some s → s.sock ≠ 0
  apart : ∀ s t, objs .client = some s → objs .server = some t → s.sock = t.sock → s.sock < 0

theorem Sound.eq_of_sock {d : Endpoint} {t : Socket} (h : objs.Sound) (hs : objs e = some s)
    (ht : objs d = some t) (heq : t.sock = s.sock) (hpos : 0 < s.sock) : d = e := by
  cases e <;> cases d
  · rfl
  · exact absurd (h.apart s t hs ht heq.symm) (by omega)
  · exact absurd (h.apart t s ht hs heq) (by omega)
  · rfl

/-- The object is gone, or has forgotten its descriptor. -/
def Spent (o : Option Socket) : Prop := ∀ s, o = some s → s.sock < 0

theorem Sound.update (h : objs.Sound) (ho : Spent o) : Sound (Function.update objs e o) := by
  have hsock : ∀ d s, Function.update objs e o d = some s → objs d = some s ∨ s.sock < 0 := by
    intro d s hs
    by_cases hd : d = e
    · subst hd
      rw [Function.update_self] at hs
      exact .inr (ho s hs)
    · rw [Function.update_of_ne hd] at hs
      exact .inl hs
  constructor
  · intro d s hs
    rcases hsock d s hs with hold | hneg
    · exact h.nonzero d s hold
    · exact Int.ne_of_lt hneg
  · intro s t hs ht heq
    rcases hsock _ s hs with hold | hneg
    · rcases hsock _ t ht with hold' | hneg'
      · exact h.apart s t hold hold' heq
      · exact heq ▸ hneg'
    · exact hneg

theorem has_update (ho : Spent o) : Has (Function.update objs e o) fd ↔
    ∃ d s, d ≠ e ∧ objs d = some s ∧ s.sock = fd ∧ 0 ≤ fd := by
  constructor
  · rintro ⟨d, s, hs, rfl, hfd⟩
    by_cases hd : d = e
    · subst hd
      rw [Function.update_self] at hs
      exact absurd (ho s hs) (by omega)
    · rw [Function.update_of_ne hd] at hs
      exact ⟨d, s, hd, hs, rfl, hfd⟩
  · rintro ⟨d, s, hd, hs, heq, hfd⟩
    exact ⟨d, s, by rw [Function.update_of_ne hd, hs], heq, hfd⟩

theorem held_sock (hs : objs e = some s) (hpos : 0 < s.sock) : objs.held s.sock = true :=
  decide_eq_true ⟨e, s, hs, rfl, Int.le_of_lt hpos⟩

theorem keep_use (hs : objs e = some s) (hpos : 0 < s.sock) :
    keep objs.held (.use s.sock) = some objs.held := if_pos (held_sock hs hpos)

theorem keep_release (h : objs.Sound) (hs : objs e = some s) (hpos : 0 < s.sock) (ho : Spent o) :
    keep objs.held (.release s.sock) = some (held (Function.update objs e o)) := by
  rw [keep, if_pos (held_sock hs hpos)]
  refine congrArg some (funext fun fd => ?_)
  by_cases hfd : fd = s.sock
  · subst hfd
    rw [Function.update_self, held, eq_comm, decide_eq_false_iff_not, has_update ho]
    rintro ⟨d, t, hd, ht, heq, -⟩
    exact hd (h.eq_of_sock hs ht heq hpos)
  · rw [Function.update_of_ne hfd, held, held, decide_eq_decide, has_update ho]
    constructor
    · rintro ⟨d, t, ht, heq, hle⟩
      refine ⟨d, t, fun hd => ?_, ht, heq, hle⟩
      subst hd
      obtain rfl := Option.some.inj (hs.symm.trans ht)
      exact hfd heq.symm
    · rintro ⟨d, t, -, ht, heq, hle⟩
      exact ⟨d, t, ht, heq, hle⟩

theorem held_update (hs : objs e = some s) (hneg : s.sock < 0) (ho : Spent o) :
    held (Function.update objs e o) = objs.held := by
  funext fd
  rw [held, held, decide_eq_decide, has_update ho]
  constructor
  · rintro ⟨d, t, -, ht, heq, hle⟩
    exact ⟨d, t, ht, heq, hle⟩
  · rintro ⟨d, t, ht, heq, hle⟩
    refine ⟨d, t, fun hd => ?_, ht, heq, hle⟩
    subst hd
    obtain rfl := Option.some.inj (hs.symm.trans ht)
    omega

end SocketObjects

/-! ## One method call -/

section Execute

variable {objs objs' : SocketObjects} {e : Endpoint} {s : Socket} {ev : Event} {ret : Int}
  {calls : List SystemCall} {answer : Transfer}

namespace Socket

/-- The call is made if there is a descriptor. The descriptor is gone if the result is an error or
the end of the connection. -/
theorem transferNB_cases (answer : Transfer) (s : Socket) :
    (¬0 < s.sock ∧ s.transferNB answer = (-1, s, [])) ∨
      (0 < s.sock ∧ 0 ≤ (s.transferNB answer).1 ∧
        (s.transferNB answer).2 = (s, [.use s.sock])) ∨
      (0 < s.sock ∧ (s.transferNB answer).1 < 0 ∧
        (s.transferNB answer).2 = ({ s with sock := -1 }, [.use s.sock, .release s.sock])) := by
  unfold transferNB close
  split_ifs with hpos
  · cases answer with
    | wouldBlock => exact .inr (.inl ⟨hpos, Int.le_refl 0, rfl⟩)
    | failed => exact .inr (.inr ⟨hpos, Int.negSucc_lt_zero 0, rfl⟩)
    | done n =>
        cases n with
        | zero => exact .inr (.inr ⟨hpos, Int.negSucc_lt_zero 1, rfl⟩)
        | succ n => exact .inr (.inl ⟨hpos, by dsimp only; omega, rfl⟩)
  · exact .inl ⟨hpos, rfl⟩

end Socket

namespace Event

/-- What a `receiveNB` or `sendNB` with this result does to the objects. -/
inductive Transferred (objs : SocketObjects) (e : Endpoint) (s : Socket) (ret : Int) :
    SocketObjects → List SystemCall → Prop
  | none (hneg : ¬0 < s.sock) (hret : ret < 0) : Transferred objs e s ret objs []
  | stays (hpos : 0 < s.sock) (hret : 0 ≤ ret) : Transferred objs e s ret objs [.use s.sock]
  | ends (hpos : 0 < s.sock) (hret : ret < 0) : Transferred objs e s ret
      (Function.update objs e (some { s with sock := -1 })) [.use s.sock, .release s.sock]

theorem transferred_of_transfer (h : transfer Socket.transferNB objs e ret = some (objs', calls)) :
    ∃ s, objs e = some s ∧ Transferred objs e s ret objs' calls := by
  obtain ⟨s, hs, h⟩ := Option.bind_eq_some_iff.mp h
  obtain ⟨answer, -, h⟩ := Option.bind_eq_some_iff.mp h
  have hsame : Function.update objs e (some s) = objs := hs ▸ Function.update_eq_self e objs
  refine ⟨s, hs, ?_⟩
  dsimp only at h
  split_ifs at h with hret
  obtain ⟨rfl, rfl⟩ := Prod.mk.inj (Option.some.inj h)
  subst hret
  rcases s.transferNB_cases answer with ⟨hneg, heq⟩ | ⟨hpos, hle, heq⟩ | ⟨hpos, hlt, heq⟩
  · rw [heq, hsame]
    exact .none hneg (Int.negSucc_lt_zero 0)
  · rw [heq, hsame]
    exact .stays hpos hle
  · rw [heq]
    exact .ends hpos hlt

theorem spent_closed (s : Socket) : SocketObjects.Spent (some { s with sock := -1 }) := by
  intro t ht
  obtain rfl := Option.some.inj ht
  exact Int.negSucc_lt_zero 0

theorem Transferred.keeps (h : objs.Sound) (hs : objs e = some s)
    (ht : Transferred objs e s ret objs' calls) :
    objs'.Sound ∧ calls.foldlM keep objs.held = some objs'.held := by
  cases ht with
  | none hneg hret => exact ⟨h, rfl⟩
  | stays hpos hret =>
      refine ⟨h, ?_⟩
      rw [List.foldlM_cons, SocketObjects.keep_use hs hpos]
      rfl
  | ends hpos hret =>
      refine ⟨h.update (spent_closed s), ?_⟩
      rw [List.foldlM_cons, SocketObjects.keep_use hs hpos, Option.bind_eq_bind, Option.bind_some,
        List.foldlM_cons, SocketObjects.keep_release h hs hpos (spent_closed s)]
      rfl

/-- A method call touches the descriptor of its own object only, and gives it back at most once. -/
theorem execute_keeps (h : objs.Sound) (hev : ev.execute objs = some (objs', calls)) :
    objs'.Sound ∧ calls.foldlM keep objs.held = some objs'.held := by
  cases ev with
  | receiveNB e offset max ret bytes =>
      obtain ⟨s, hs, ht⟩ := transferred_of_transfer hev
      exact ht.keeps h hs
  | sendNB e bytes ret =>
      obtain ⟨s, hs, ht⟩ := transferred_of_transfer hev
      exact ht.keeps h hs
  | checkSocket e ret =>
      obtain ⟨s, hs, hev⟩ := Option.bind_eq_some_iff.mp hev
      split_ifs at hev
      obtain ⟨rfl, rfl⟩ := Prod.mk.inj (Option.some.inj hev)
      refine ⟨h, ?_⟩
      unfold Socket.checkSocket
      split_ifs with hpos
      · rw [List.foldlM_cons, SocketObjects.keep_use hs hpos]
        rfl
      · rfl
  | close e =>
      obtain ⟨s, hs, hev⟩ := Option.map_eq_some_iff.mp hev
      obtain ⟨rfl, rfl⟩ := Prod.mk.inj hev
      have hnone : SocketObjects.Spent none := nofun
      refine ⟨h.update hnone, ?_⟩
      unfold Socket.destroy Socket.close
      split_ifs with hpos hback
      · have hneg : (-1 : Int) > 0 := hback
        omega
      · simp only [List.append_nil]
        rw [List.foldlM_cons, SocketObjects.keep_release h hs hpos hnone]
        rfl
      · have hneg : s.sock < 0 := by
          have hne := h.nonzero e s hs
          omega
        rw [SocketObjects.held_update hs hneg hnone]
        rfl
  | post id =>
      obtain ⟨rfl, rfl⟩ := Prod.mk.inj (Option.some.inj hev)
      exact ⟨h, rfl⟩

theorem executeAll_concat {trace : List Event}
    (h : executeAll objs (trace ++ [ev]) = some (objs', calls)) :
    ∃ mid before behind, executeAll objs trace = some (mid, before) ∧
      ev.execute mid = some (objs', behind) ∧ calls = before ++ behind := by
  rw [executeAll, List.foldlM_append] at h
  obtain ⟨⟨mid, before⟩, hmid, h⟩ := Option.bind_eq_some_iff.mp h
  simp only [List.foldlM_cons, List.foldlM_nil, Option.pure_def, Option.bind_eq_bind,
    Option.bind_fun_some] at h
  obtain ⟨⟨last, behind⟩, hev, hlast⟩ := Option.map_eq_some_iff.mp h
  obtain ⟨rfl, rfl⟩ := Prod.mk.inj hlast
  exact ⟨mid, before, behind, hmid, hev, rfl⟩

theorem executeAll_keeps (h : objs.Sound) {trace : List Event}
    (hrun : executeAll objs trace = some (objs', calls)) :
    objs'.Sound ∧ calls.foldlM keep objs.held = some objs'.held := by
  induction trace using List.reverseRecOn generalizing objs' calls with
  | nil =>
      obtain ⟨rfl, rfl⟩ := Prod.mk.inj (Option.some.inj hrun)
      exact ⟨h, rfl⟩
  | append_singleton trace ev ih =>
      obtain ⟨mid, before, behind, hmid, hev, rfl⟩ := executeAll_concat hrun
      obtain ⟨hsound, hbefore⟩ := ih hmid
      obtain ⟨hsound', hbehind⟩ := execute_keeps hsound hev
      refine ⟨hsound', ?_⟩
      rw [List.foldlM_append, hbefore]
      exact hbehind

end Event

end Execute

/-! ## The calls of a peer -/

namespace ConnectionPeer

variable {p q : ConnectionPeer} {start objs : SocketObjects} {calls : List SystemCall}
  {e : Endpoint} {ev : Event}

/-- As long as the objects answer, they are those that the peer points to, and none of these has
forgotten its descriptor. -/
def Matches (start : SocketObjects) (p : ConnectionPeer) : Prop :=
  ∀ objs calls, Event.executeAll start p.trace = some (objs, calls) → objs = p.socket

theorem Matches.emit (h : p.Matches start)
    (hrun : Event.executeAll start (p.emit ev).trace = some (objs, calls)) :
    ∃ calls', ev.execute p.socket = some (objs, calls') := by
  rw [trace_emit] at hrun
  obtain ⟨mid, before, behind, hmid, hev, -⟩ := Event.executeAll_concat hrun
  rw [h mid before hmid] at hev
  exact ⟨behind, hev⟩

theorem Matches.congr (h : p.Matches start) (htrace : q.trace = p.trace)
    (hsocket : ∀ e, q.socket e = p.socket e) : q.Matches start := by
  intro objs calls hrun
  rw [htrace] at hrun
  exact (h objs calls hrun).trans (funext fun e => (hsocket e).symm)

theorem Matches.post (h : p.Matches start) (id : UInt32) : (p.post id).Matches start := by
  unfold ConnectionPeer.post
  split
  · intro objs calls hrun
    obtain ⟨calls', hev⟩ := h.emit hrun
    exact (Prod.mk.inj (Option.some.inj hev)).1.symm.trans
      (funext fun e => (socket_emit p e _).symm)
  · exact h

theorem matches_drop (h : ∀ objs calls, Event.executeAll start p.trace = some (objs, calls) →
    objs e.other = p.socket e.other) : (p.drop e).Matches start := by
  intro objs calls hrun
  rw [trace_drop] at hrun
  obtain ⟨mid, before, behind, hmid, hev, -⟩ := Event.executeAll_concat hrun
  obtain ⟨s, -, hclosed⟩ := Option.map_eq_some_iff.mp hev
  obtain ⟨rfl, rfl⟩ := Prod.mk.inj hclosed
  funext d
  rcases d.eq_or_other e with rfl | rfl
  · rw [Function.update_self, socket_drop_self]
  · rw [Function.update_of_ne e.other_ne, socket_drop_other]
    exact h mid before hmid

theorem matches_closeEndpoint (hopen : (p.socket e).isSome)
    (h : ∀ objs calls, Event.executeAll start p.trace = some (objs, calls) →
      objs e.other = p.socket e.other) : (p.closeEndpoint e).Matches start := by
  have hdrop : (p.drop e).Matches start := matches_drop h
  rw [closeEndpoint_of_open p e hopen]
  split_ifs
  · refine matches_drop fun objs calls hrun => ?_
    rw [hdrop objs calls hrun]
  · exact hdrop

theorem Matches.closeEndpoint (h : p.Matches start) (e : Endpoint) :
    (p.closeEndpoint e).Matches start := by
  cases hs : p.socket e with
  | none => rwa [closeEndpoint_of_closed p e hs]
  | some s =>
      exact matches_closeEndpoint (Option.isSome_of_eq_some hs) fun objs calls hrun => by
        rw [h objs calls hrun]

theorem Matches.close (h : p.Matches start) : p.close.Matches start :=
  (h.closeEndpoint .client).closeEndpoint .server

theorem Matches.emit_transfer (h : p.Matches start) (ev : Event) {ret : Int}
    (hev : ∀ objs, ev.execute objs = Event.transfer Socket.transferNB objs e ret) :
    (0 ≤ ret → (p.emit ev).Matches start) ∧
      ∀ objs calls, Event.executeAll start (p.emit ev).trace = some (objs, calls) →
        objs e.other = (p.emit ev).socket e.other := by
  have hsocket : p.socket = (p.emit ev).socket := funext fun e => (socket_emit p e ev).symm
  refine ⟨fun hret objs calls hrun => ?_, fun objs calls hrun => ?_⟩
  · obtain ⟨calls', hexec⟩ := h.emit hrun
    rw [hev] at hexec
    obtain ⟨s, hs, ht⟩ := Event.transferred_of_transfer hexec
    cases ht with
    | none hneg hlt => omega
    | stays hpos hle => exact hsocket
    | ends hpos hlt => omega
  · obtain ⟨calls', hexec⟩ := h.emit hrun
    rw [hev] at hexec
    obtain ⟨s, hs, ht⟩ := Event.transferred_of_transfer hexec
    rw [← hsocket]
    cases ht with
    | none hneg hlt => rfl
    | stays hpos hle => rfl
    | ends hpos hlt => exact Function.update_of_ne e.other_ne _ _

theorem Matches.getMissingDataFrom (h : p.Matches start) (e : Endpoint)
    (disconnected lost : ConnectionPeer → UInt32) (io : SocketIO) :
    (p.getMissingDataFrom e disconnected lost io).Matches start := by
  unfold ConnectionPeer.getMissingDataFrom
  dsimp only
  split
  · rename_i hready
    have hopen : ∀ ev, ((p.emit ev).socket e).isSome := fun ev => by
      rw [socket_emit]
      exact hready.1
    obtain ⟨hstays, hother⟩ := h.emit_transfer (.receiveNB e _ _ _ _) fun objs => rfl
    split_ifs with hpos hneg hclosed
    · exact (hstays (Int.le_of_lt hpos)).congr (trace_setBufferFor _ _ _)
        fun d => socket_setBufferFor _ _ _ _
    · exact (matches_closeEndpoint (hopen _) hother).post _
    · exact (matches_closeEndpoint (hopen _) hother).post _
    · exact hstays (Int.not_lt.mp hneg)
  · exact h

theorem Matches.sendMissingDataTo (h : p.Matches start) (e : Endpoint) (disconnected lost : UInt32)
    (io : SocketIO) : (p.sendMissingDataTo e disconnected lost io).Matches start := by
  unfold ConnectionPeer.sendMissingDataTo
  dsimp only
  split
  · rename_i hready
    have hopen : ∀ ev, ((p.emit ev).socket e).isSome := fun ev => by
      rw [socket_emit]
      exact hready.1
    obtain ⟨hstays, hother⟩ := h.emit_transfer (.sendNB e _ _) fun objs => rfl
    split_ifs with hpos hlast hneg hclosed
    · exact (((hstays (Int.le_of_lt hpos)).congr (trace_setBufferFor _ _ _)
        fun d => socket_setBufferFor _ _ _ _).closeEndpoint e).post _
    · exact (hstays (Int.le_of_lt hpos)).congr (trace_setBufferFor _ _ _)
        fun d => socket_setBufferFor _ _ _ _
    · exact (matches_closeEndpoint (hopen _) hother).post _
    · exact (matches_closeEndpoint (hopen _) hother).post _
    · exact hstays (Int.not_lt.mp hneg)
  · exact h

theorem Matches.checkEndpoint (h : p.Matches start) (e : Endpoint) (lost : UInt32)
    (io : SocketIO) : (p.checkEndpoint e lost io).Matches start := by
  have hemit : (p.emit (.checkSocket e (io.checkSocket e))).Matches start := by
    intro objs calls hrun
    obtain ⟨calls', hexec⟩ := h.emit hrun
    obtain ⟨s, hs, hexec⟩ := Option.bind_eq_some_iff.mp hexec
    split_ifs at hexec
    exact (Prod.mk.inj (Option.some.inj hexec)).1.symm.trans
      (funext fun d => (socket_emit p d _).symm)
  unfold ConnectionPeer.checkEndpoint
  dsimp only
  split_ifs
  · exact (hemit.closeEndpoint e).post lost
  · exact hemit
  · exact h

theorem kept_matches (start : SocketObjects) : Kept (Matches start) where
  getMissingDataFromClient p io h := h.getMissingDataFrom _ _ _ io
  getMissingDataFromServer p io h := h.getMissingDataFrom _ _ _ io
  sendMissingDataToClient p io h := h.sendMissingDataTo _ _ _ io
  sendMissingDataToServer p io h := h.sendMissingDataTo _ _ _ io
  checkServer p io h := h.checkEndpoint _ _ io
  checkClient p io h := h.checkEndpoint _ _ io
  finish p e h _ _ := (h.closeEndpoint e).post _
  establish p h _ :=
    have hmatches : Matches start { p with pServerConnected := true } :=
      h.congr rfl fun e => by cases e <;> rfl
    hmatches.post _

theorem Matches.live (h : p.Matches start) {op : LifeOp} (hq : p.live op = .ok q) :
    q.Matches start := by
  cases op with
  | destroy =>
      obtain rfl := Except.ok.inj hq
      exact h.close
  | perform op =>
      change p.perform op = .ok q at hq
      by_cases hop : p.EndsPeer op
      · rcases perform_of_endsPeer hop with hperform | ⟨-, hperform⟩
        · obtain rfl := Except.ok.inj (hperform.symm.trans hq)
          exact h.close.post _
        · obtain rfl := Except.ok.inj (hperform.symm.trans hq)
          exact (h.closeEndpoint .server).post _
      · have halways := (kept_matches start).perform h hop
        rw [hq] at halways
        exact halways

end ConnectionPeer

/-! ## All threads -/

open ConnectionPeer

def SocketObjects.ofPair (client server : Socket) : SocketObjects
  | .client => some client
  | .server => some server

/-- What an accepted client leads to, with the objects that are left: the calls of a peer up to any
moment of its life, or those for a client that no server is found for. -/
inductive Serves : List SystemCall → SocketObjects → Prop
  | peer {client server : Socket} {memory : Endpoint → Nat → UInt8} {jq : Bool} {info : Option Ptr}
      {p : ConnectionPeer} {objs : SocketObjects} {calls : List SystemCall}
      (hclient : 0 < client.sock) (hserver : server.sock ≠ 0) (hne : client.sock ≠ server.sock)
      (hlife : Reach (fun p op q => p.live op = .ok q) anyStep
        (· = create memory (some client) (some server) jq info) p)
      (hcalls : Event.executeAll (.ofPair client server) p.trace = some (objs, calls)) :
      Serves (client.opened ++ server.opened ++ calls) p.socket
  | refused {client : Socket} (hclient : 0 < client.sock) :
      Serves (client.opened ++ client.destroy) fun _ => none

theorem SocketObjects.sound_ofPair {client server : Socket} (hclient : 0 < client.sock)
    (hserver : server.sock ≠ 0) (hne : client.sock ≠ server.sock) :
    (SocketObjects.ofPair client server).Sound where
  nonzero e s hs := by
    cases e with
    | client =>
        obtain rfl := Option.some.inj hs
        omega
    | server =>
        obtain rfl := Option.some.inj hs
        exact hserver
  apart s t hs ht heq := by
    obtain rfl := Option.some.inj hs
    obtain rfl := Option.some.inj ht
    exact absurd heq hne

theorem SocketObjects.held_ofPair (client server : Socket) (fd : Int) :
    (SocketObjects.ofPair client server).held fd =
      decide (0 ≤ fd ∧ (client.sock = fd ∨ server.sock = fd)) := by
  rw [held, decide_eq_decide, has_iff]
  simp [ofPair]

/-- What has been opened is what the objects hold. -/
theorem holds_opened {client server : Socket} (hclient : 0 < client.sock)
    (hne : client.sock ≠ server.sock) :
    holds (client.opened ++ server.opened) = some (SocketObjects.ofPair client server).held := by
  rw [Socket.opened, if_pos (Int.le_of_lt hclient), Socket.opened, holds]
  split_ifs with hserver
  · have hfree : Function.update (fun _ => false) client.sock true server.sock = false :=
      Function.update_of_ne hne.symm _ _
    simp only [List.singleton_append, List.foldlM_cons, List.foldlM_nil, keep, hfree,
      Option.bind_eq_bind, Option.pure_def, Bool.false_eq_true, if_false, Option.bind_some]
    refine congrArg some (funext fun fd => ?_)
    rw [SocketObjects.held_ofPair]
    simp only [Function.update_apply]
    split_ifs with hs hc
    · exact (decide_eq_true ⟨hs ▸ hserver, .inr hs.symm⟩).symm
    · exact (decide_eq_true ⟨hc ▸ Int.le_of_lt hclient, .inl hc.symm⟩).symm
    · exact (decide_eq_false fun h => h.2.elim (fun h => hc h.symm) fun h => hs h.symm).symm
  · simp only [List.append_nil, List.foldlM_cons, List.foldlM_nil, keep, Bool.false_eq_true,
      if_false, Option.bind_eq_bind, Option.pure_def, Option.bind_some]
    refine congrArg some (funext fun fd => ?_)
    rw [SocketObjects.held_ofPair]
    simp only [Function.update_apply]
    split_ifs with hc
    · exact (decide_eq_true ⟨hc ▸ Int.le_of_lt hclient, .inl hc.symm⟩).symm
    · exact (decide_eq_false fun h => h.2.elim (fun h' => hc h'.symm) fun h' =>
        hserver (h' ▸ h.1)).symm

theorem matches_of_life {client server : Socket} {memory : Endpoint → Nat → UInt8} {jq : Bool}
    {info : Option Ptr} {p : ConnectionPeer}
    (hlife : Reach (fun p op q => p.live op = .ok q) anyStep
      (· = create memory (some client) (some server) jq info) p) :
    p.Matches (.ofPair client server) := by
  refine Reach.invariant (I := Matches (.ofPair client server)) (fun p hp objs calls hrun => ?_)
    (fun p op q hp _ hstep => hp.live hstep) hlife
  subst hp
  obtain ⟨rfl, -⟩ := Prod.mk.inj (Option.some.inj hrun)
  funext e
  cases e <;> rfl

theorem Serves.holds {calls : List SystemCall} {objs : SocketObjects} (h : Serves calls objs) :
    holds calls = some objs.held := by
  cases h with
  | peer hclient hserver hne hlife hcalls =>
      obtain ⟨-, hkeeps⟩ := Event.executeAll_keeps
        (SocketObjects.sound_ofPair hclient hserver hne) hcalls
      rw [HandleOp.holds, List.foldlM_append, ← HandleOp.holds, holds_opened hclient hne,
        ← matches_of_life hlife _ _ hcalls]
      exact hkeeps
  | refused hclient =>
      rw [Socket.opened, if_pos (Int.le_of_lt hclient), Socket.destroy, Socket.close,
        if_pos hclient, HandleOp.holds]
      simp only [List.singleton_append, List.foldlM_cons, List.foldlM_nil, keep,
        Function.update_self, Option.bind_eq_bind, Option.pure_def, Bool.false_eq_true, if_false,
        Option.bind_some, if_true]
      refine congrArg some (funext fun fd => ?_)
      rw [SocketObjects.held, eq_comm, Function.update_idem, Function.update_eq_self_iff.mpr rfl]
      have hnone : ¬SocketObjects.Has (fun _ => none) fd := by
        rintro ⟨_, _, h, _⟩
        cases h
      exact decide_eq_false hnone

section Threads

variable {ι : Type*} [DecidableEq ι] {log : List (ι × SystemCall)}

/-- However the threads interleave, and whichever closed descriptors the system gives out again,
every descriptor that a client's peer uses or closes is its own at that moment, as long as whoever
else has descriptors keeps to those that it was given. Between two of its calls a peer owns the
descriptors of its `Socket` objects that are not negative, those and no others, and when it is gone,
all is closed. -/
theorem descriptors_own
    (hgiven : ∀ k x, log[k]? = some x → Given (ownerAfter (log.take k)) x)
    (howners : ∀ i, (∃ calls objs, Serves calls objs ∧ history i log <+: calls) ∨
      (holds (history i log)).isSome) :
    (∀ k x, log[k]? = some x → Own (ownerAfter (log.take k)) x) ∧
      ∀ i objs, Serves (history i log) objs →
        ∀ fd, ownerAfter log fd = some i ↔ ∃ e s, objs e = some s ∧ s.sock = fd ∧ 0 ≤ fd := by
  have hkept : ∀ i, (holds (history i log)).isSome := by
    intro i
    rcases howners i with ⟨calls, objs, hserves, more, rfl⟩ | hkept
    · exact isSome_of_prefix more (hserves.holds ▸ rfl)
    · exact hkept
  obtain ⟨hown, hholds⟩ := owned hgiven hkept
  refine ⟨hown, fun i objs hserves fd => ?_⟩
  have hsame := congrFun (Option.some.inj ((hholds i).symm.trans hserves.holds)) fd
  exact decide_eq_decide.mp hsame

end Threads

/-! Two clients. The first one goes away before its server is connected, and the second one gets the
descriptor of the first while the peer of the first still has its server to close. -/

namespace Serves.Sample

def firstClient : Socket := ⟨5, ⟨10, 0, 0, 1⟩, 1000⟩

def firstServer : Socket := ⟨6, ⟨10, 0, 0, 2⟩, 80⟩

def first : ConnectionPeer :=
  create (fun _ _ => 0) (some firstClient) (some firstServer) true (some 1)

def secondClient : Socket := ⟨5, ⟨10, 0, 0, 3⟩, 1001⟩

def secondServer : Socket := ⟨7, ⟨10, 0, 0, 2⟩, 80⟩

def second : ConnectionPeer :=
  create (fun _ _ => 0) (some secondClient) (some secondServer) true (some 2)

def clientGone : LifeOp :=
  .perform (.manageConnectingPeer (fun fd => fd == 5) (fun _ => false)
    ConnectionPeer.Sample.clientCloses)

def log : List (Nat × SystemCall) :=
  [(1, .acquire 5), (1, .acquire 6), (1, .use 5), (1, .release 5), (2, .acquire 5),
    (1, .release 6), (2, .acquire 7)]

theorem serves_first : ∃ p, first.live clientGone = .ok p ∧ p.isActive = false ∧
    Serves (history 1 log) p.socket := by
  refine ⟨_, rfl, rfl, ?_⟩
  have hgone : first.live clientGone = .ok _ := rfl
  exact @Serves.peer firstClient firstServer _ _ _ _ _ _ (by decide) (by decide) (by decide)
    (.next (.start rfl) trivial hgone) rfl

theorem serves_second : Serves (history 2 log) second.socket :=
  @Serves.peer secondClient secondServer _ _ _ second _ _ (by decide) (by decide) (by decide)
    (.start rfl) rfl

end Serves.Sample

theorem descriptors_own_reused :
    (∀ k x, Serves.Sample.log[k]? = some x → Own (ownerAfter (Serves.Sample.log.take k)) x) ∧
      ∀ i objs, Serves (history i Serves.Sample.log) objs → ∀ fd,
        ownerAfter Serves.Sample.log fd = some i ↔
          ∃ e s, objs e = some s ∧ s.sock = fd ∧ 0 ≤ fd := by
  refine descriptors_own (fun k x hx => ?_) fun i => ?_
  · have hall : ∀ k < 7, ∀ x ∈ Serves.Sample.log[k]?,
        Given (ownerAfter (Serves.Sample.log.take k)) x := by
      decide
    exact hall k (List.getElem?_eq_some_iff.mp hx).1 x hx
  · by_cases hone : i = 1
    · obtain ⟨p, -, -, hserves⟩ := Serves.Sample.serves_first
      exact .inl ⟨_, _, hone ▸ hserves, hone ▸ List.prefix_refl _⟩
    · by_cases htwo : i = 2
      · exact .inl ⟨_, _, htwo ▸ Serves.Sample.serves_second, htwo ▸ List.prefix_refl _⟩
      · refine .inr ?_
        have hnothing : history i Serves.Sample.log = [] := by
          simp [history, Serves.Sample.log, Ne.symm hone, Ne.symm htwo]
        rw [hnothing]
        rfl

end Relb
