import Relb.Proofs.AdminBasics
import Relb.Proofs.Assignment
/-!
# Which entries the admin lists twice

An announced connection is listed at the end, whether it is listed already or not. `ServerList`
announces an entry again when it is armed again, so the admin lists it twice unless its copy
shows an end by then.
-/

namespace Relb

open Lib

namespace AdminHTTPServer

variable {a : AdminHTTPServer} {heap : Ptr → Option PeerInfo} {p : Ptr} {c : PeerInfo}
  {id : UInt32} {now : Datetime} {msg : Message}

theorem nodup_announced (hnodup : a.peerList.Nodup) (hc : heap p = some c) (now : Datetime) :
    (a.processMessage heap ⟨statusConnectingServer, p⟩ now).1.peerList.Nodup ↔
      (p ∈ a.peerList → c.notConnected = true) := by
  have hself : (heap p).any (ServerList.isLostOf c.srcIp) = c.notConnected := by
    simp [hc, ServerList.isLostOf]
  have hlist : (a.processMessage heap ⟨statusConnectingServer, p⟩ now).1.peerList =
      a.peerList.filter (fun y => !(heap y).any (ServerList.isLostOf c.srcIp)) ++ [p] := by
    rw [processMessage_connecting hc, (startConnection_eq _ c).2, enter_eq]
  rw [hlist, List.nodup_append]
  constructor
  · intro h hp
    by_contra hlive
    have hkept : p ∈ a.peerList.filter fun y => !(heap y).any (ServerList.isLostOf c.srcIp) := by
      apply List.mem_filter.mpr
      rw [hself]
      exact ⟨hp, by simpa using hlive⟩
    exact h.2.2 p hkept p List.mem_cons_self rfl
  · intro h
    refine ⟨hnodup.filter _, List.nodup_singleton p, fun x hx y hy heq => ?_⟩
    rw [List.mem_singleton.mp hy] at heq
    subst heq
    obtain ⟨hmem, hlive⟩ := List.mem_filter.mp hx
    rw [hself, h hmem] at hlive
    cases hlive

/-- The message announces a connection that is listed, and whose copy shows no end. -/
def Repeats (a : AdminHTTPServer) (heap : Ptr → Option PeerInfo) (msg : Message) : Prop :=
  msg.id = statusConnectingServer ∧ msg.param ∈ a.peerList ∧
    ∃ c, heap msg.param = some c ∧ c.notConnected = false

theorem nodup_processMessage (hnodup : a.peerList.Nodup) (msg : Message) (now : Datetime) :
    (a.processMessage heap msg now).1.peerList.Nodup ↔ ¬a.Repeats heap msg := by
  obtain ⟨id, p⟩ := msg
  by_cases hid : id = statusConnectingServer
  · subst hid
    cases hc : heap p with
    | none =>
        have hsame : a.processMessage heap ⟨statusConnectingServer, p⟩ now = (a, heap) := by
          simp [processMessage, hc]
        rw [hsame]
        refine iff_of_true hnodup fun hrepeats => ?_
        obtain ⟨-, -, c, hc', -⟩ := hrepeats
        rw [hc] at hc'
        cases hc'
    | some c =>
        rw [nodup_announced hnodup hc]
        simp [Repeats, hc]
  · refine iff_of_true ?_ fun h => hid h.1
    unfold processMessage
    rw [if_neg hid]
    dsimp only
    split
    · exact hnodup.sublist (sublist_countMessage _ _ _ _ _)
    · exact hnodup

end AdminHTTPServer

/-- `ServerList` and the web admin, with the queue between them. -/
structure Displayed where
  list : ServerList
  admin : AdminHTTPServer

namespace Displayed

inductive Op
  | list (op : ServerList.Op)
  | receive (now : Datetime)

/-- The admin takes a message from its queue, if there is one. -/
def receive (w : Displayed) (now : Datetime) : Displayed :=
  match w.list.parallelList with
  | some (msg :: queue) =>
      let r := w.admin.processMessage w.list.parallels msg now
      ⟨{ w.list with parallelList := some queue, parallels := r.2 }, r.1⟩
  | _ => w

def perform (w : Displayed) : Op → Displayed
  | .list op => ⟨w.list.perform op, w.admin⟩
  | .receive now => w.receive now

/-- The queue of the admin is attached before the first connection. -/
structure Started (w : Displayed) : Prop where
  configured : ServerList.Configured w.list
  attached : w.list.parallelList = some []
  peerList : w.admin.peerList = []

/-- The admin does not take the announcement of a connection that it lists and whose copy shows
no end. -/
def Distinct (w : Displayed) : Op → Prop
  | .list _ => True
  | .receive _ => ∀ msg queue, w.list.parallelList = some (msg :: queue) →
      ¬w.admin.Repeats w.list.parallels msg

variable {w : Displayed}

theorem nodup_perform (hnodup : w.admin.peerList.Nodup) (op : Op) :
    (w.perform op).admin.peerList.Nodup ↔ w.Distinct op := by
  cases op with
  | list op => exact iff_of_true hnodup trivial
  | receive now =>
      unfold perform receive Distinct
      dsimp only
      cases hqueue : w.list.parallelList with
      | none => exact iff_of_true hnodup fun msg queue h => nomatch h
      | some queue =>
          cases queue with
          | nil => exact iff_of_true hnodup fun msg queue h => nomatch h
          | cons msg queue =>
              dsimp only
              rw [AdminHTTPServer.nodup_processMessage hnodup]
              simp

/-- Along a run the admin lists no entry twice exactly if, whenever it takes the announcement of
an entry that it lists, the copy of the entry shows an end. -/
theorem admin_entries_unique (hw : w.Started) (ops : List Op) :
    Along (fun w op => .ok (w.perform op)) (fun w => w.admin.peerList.Nodup) w ops ↔
      Clear (fun w op => .ok (w.perform op)) Distinct w ops := by
  apply along_iff_clear (I := fun w : Displayed => w.admin.peerList.Nodup) (fun w h => h)
  · intro w op t h hguard hstep
    rw [← Except.ok.inj hstep]
    exact (nodup_perform h op).mpr hguard
  · intro w op h hguard
    exact ⟨w.perform op, rfl, (nodup_perform h op).not.mpr hguard⟩
  · rw [hw.peerList]
    exact List.nodup_nil

namespace Sample

def start : Displayed := ⟨ServerList.Sample.twoServers.attachAdmin, .create⟩

/-- The client connects twice from one port, and the admin takes both announcements. -/
def twice : List Op :=
  [.list (.getServer ServerList.Sample.client 5000 (some 1) 10 100 200),
    .list (.getServer ServerList.Sample.client 5000 (some 1) 20 101 201), .receive 30, .receive 40]

theorem started_start : start.Started :=
  ⟨.attachAdmin ServerList.Sample.configured_twoServers, rfl, rfl⟩

end Sample

theorem admin_entries_unique_once :
    Along (fun w op => .ok (perform w op)) (fun w => w.admin.peerList.Nodup) Sample.start
      [.list ServerList.Sample.connect, .receive 20] := by
  apply (admin_entries_unique Sample.started_start _).mpr
  refine ⟨trivial, fun t ht => ⟨?_, fun _ _ => trivial⟩⟩
  rw [← Except.ok.inj ht]
  exact fun msg queue _ h => absurd h.2.1 List.not_mem_nil

/-- The entry is armed again before its connection has ended, and announced a second time. -/
theorem admin_entries_repeated :
    Sample.start.Started ∧ (Sample.twice.foldl perform Sample.start).admin.peerList = [200, 200] ∧
      ¬Along (fun w op => .ok (perform w op)) (fun w => w.admin.peerList.Nodup) Sample.start
        Sample.twice := by
  have hend : (Sample.twice.foldl perform Sample.start).admin.peerList = [200, 200] := by
    decide +kernel
  refine ⟨Sample.started_start, hend, fun h => ?_⟩
  obtain ⟨-, hconnected⟩ := h
  obtain ⟨-, harmed⟩ := hconnected _ rfl
  obtain ⟨-, hannounced⟩ := harmed _ rfl
  obtain ⟨-, hrepeated⟩ := hannounced _ rfl
  have hnodup : (Sample.twice.foldl perform Sample.start).admin.peerList.Nodup := hrepeated _ rfl
  rw [hend] at hnodup
  exact absurd hnodup (by decide)

end Displayed

end Relb
