import Relb.Lib.Selection
import Relb.Proofs.Affinity
/-!
# Which session is resumed

The entries of a client that are eligible, and what the search among them ends with: the first
one with the port of the client, or else the earliest of those that were changed last.
-/

namespace Relb

open Lib

namespace ServerList

variable {s : ServerList} {clientIp : IpAddress} {clientPort : UInt16} {pcm : Option ManagerId}
  {now : Datetime} {addr parallelAddr : Ptr} {q x : PeerInfo} {i n : Nat}

/-- An entry of the client that has not failed, and whose server may be tried: the last of the
servers with its address. -/
structure Eligible (s : ServerList) (clientIp : IpAddress) (now : Datetime) (q : PeerInfo) :
    Prop where
  client : q.srcIp = clientIp
  status : q.status.toUInt32 ≠ statusConnectionFailed
  server : ∃ (i : Nat) (srv : ServerInfo), s.serversList[i]? = some srv ∧ srv.ip = q.dstIp ∧
    (∀ (j : Nat) (x : ServerInfo), i < j → s.serversList[j]? = some x → x.ip ≠ q.dstIp) ∧
    srv.inRetry s.serverRetryMilliseconds now = false

/-- The search for a server goes backwards. -/
theorem lastServerWithIp_eq_some_iff {ip : IpAddress} :
    s.lastServerWithIp ip n = some i ↔ i < n ∧ (∃ srv, s.serversList[i]? = some srv ∧ srv.ip = ip) ∧
      ∀ j x, i < j → j < n → s.serversList[j]? = some x → x.ip ≠ ip := by
  induction n with
  | zero => simp [lastServerWithIp]
  | succ n ih =>
      have hhere : (s.serversList[n]?.any fun srv => srv.ip == ip) = true ↔
          ∃ srv, s.serversList[n]? = some srv ∧ srv.ip = ip := by
        simp [Option.any_eq_true]
      unfold lastServerWithIp
      by_cases hn : ∃ srv, s.serversList[n]? = some srv ∧ srv.ip = ip
      · rw [if_pos (hhere.mpr hn), Option.some.injEq]
        constructor
        · rintro rfl
          exact ⟨Nat.lt_succ_self _, hn, fun j x hlt hle => by omega⟩
        · rintro ⟨hi, -, hlast⟩
          obtain ⟨srv, hsrv, hip⟩ := hn
          by_contra hne
          exact hlast n srv (by omega) (Nat.lt_succ_self n) hsrv hip
      · rw [if_neg (fun h => hn (hhere.mp h)), ih]
        constructor
        · rintro ⟨hi, hsrv, hlast⟩
          refine ⟨Nat.lt_succ_of_lt hi, hsrv, fun j x hij hj hx hip => ?_⟩
          rcases Nat.lt_succ_iff_lt_or_eq.mp hj with hj | rfl
          · exact hlast j x hij hj hx hip
          · exact hn ⟨x, hx, hip⟩
        · rintro ⟨hi, hsrv, hlast⟩
          refine ⟨?_, hsrv, fun j x hij hj => hlast j x hij (Nat.lt_succ_of_lt hj)⟩
          rcases Nat.lt_succ_iff_lt_or_eq.mp hi with hi | rfl
          · exact hi
          · exact absurd hsrv hn

/-- The sessions that the search accepts are the eligible entries. -/
theorem eligible_iff : s.Eligible clientIp now q ↔
    q.srcIp = clientIp ∧ ∃ i, s.sessionServer q now = some i := by
  have hserver : (∃ i, s.sessionServer q now = some i) ↔
      q.status.toUInt32 ≠ statusConnectionFailed ∧
        ∃ i, s.lastServerWithIp q.dstIp s.serversList.length = some i ∧
          ¬(s.serversList[i]?.any fun srv => srv.inRetry s.serverRetryMilliseconds now) = true := by
    unfold sessionServer
    by_cases hstatus : q.status.toUInt32 ≠ statusConnectionFailed
    · rw [if_pos hstatus]
      cases hlast : s.lastServerWithIp q.dstIp s.serversList.length with
      | none => simp
      | some j => by_cases hretry : (s.serversList[j]?.any fun srv =>
          srv.inRetry s.serverRetryMilliseconds now) = true <;> simp [hretry, hstatus]
    · rw [if_neg hstatus]
      simp [hstatus]
  rw [hserver]
  constructor
  · rintro ⟨hclient, hstatus, i, srv, hsrv, hip, hlast, hretry⟩
    refine ⟨hclient, hstatus, i, ?_, by simp [hsrv, hretry]⟩
    exact lastServerWithIp_eq_some_iff.mpr ⟨(List.getElem?_eq_some_iff.mp hsrv).1,
      ⟨srv, hsrv, hip⟩, fun j x hij _ => hlast j x hij⟩
  · rintro ⟨hclient, hstatus, i, hi, hretry⟩
    obtain ⟨-, ⟨srv, hsrv, hip⟩, hlast⟩ := lastServerWithIp_eq_some_iff.mp hi
    refine ⟨hclient, hstatus, i, srv, hsrv, hip, fun j x hij hx => ?_, ?_⟩
    · exact hlast j x hij (List.getElem?_eq_some_iff.mp hx).1 hx
    · simpa [hsrv] using hretry

theorem ValidSession.eligible {peer server : Nat} (h : s.ValidSession clientIp now peer server q) :
    s.Eligible clientIp now q := eligible_iff.mpr ⟨h.client, server, h.server⟩

/-! ## The search -/

/-- `q` is the earliest of the eligible entries of `l` that were changed last. -/
structure Latest (s : ServerList) (clientIp : IpAddress) (now : Datetime) (l : List PeerInfo)
    (q : PeerInfo) : Prop where
  eligible : s.Eligible clientIp now q
  greatest : ∃ l₁ l₂, l = l₁ ++ q :: l₂ ∧
    (∀ x ∈ l₁, s.Eligible clientIp now x → x.modified < q.modified) ∧
    ∀ x ∈ l₂, s.Eligible clientIp now x → x.modified ≤ q.modified

namespace Latest

variable {l : List PeerInfo}

theorem le (h : s.Latest clientIp now l q) (hx : x ∈ l) (hx' : s.Eligible clientIp now x) :
    x.modified ≤ q.modified := by
  obtain ⟨l₁, l₂, rfl, hbefore, hbehind⟩ := h.greatest
  rw [List.mem_append, List.mem_cons] at hx
  rcases hx with hx | rfl | hx
  · exact Int.le_of_lt (hbefore x hx hx')
  · exact Int.le_refl _
  · exact hbehind x hx hx'

theorem mem (h : s.Latest clientIp now l q) : q ∈ l := by
  obtain ⟨l₁, l₂, rfl, -⟩ := h.greatest
  exact List.mem_append_right l₁ List.mem_cons_self

theorem unique (hq : s.Latest clientIp now l q) (hx : s.Latest clientIp now l x) : q = x := by
  obtain ⟨hq, l₁, l₂, rfl, hq₁, hq₂⟩ := hq
  obtain ⟨hx, m₁, m₂, hsplit, hx₁, hx₂⟩ := hx
  rcases places_cases hsplit with rfl | ⟨hmem, hmem'⟩ | ⟨hmem', hmem⟩
  · rfl
  · exact absurd (hx₁ q hmem hq) (Int.not_lt.mpr (hq₂ x hmem' hx))
  · exact absurd (hq₁ x hmem' hx) (Int.not_lt.mpr (hx₂ q hmem hq))

theorem first (hx : s.Eligible clientIp now x) (h : ∀ y ∈ l, ¬s.Eligible clientIp now y) :
    s.Latest clientIp now (l ++ [x]) x :=
  ⟨hx, l, [], rfl, fun y hy hy' => absurd hy' (h y hy), by simp⟩

theorem later (h : s.Latest clientIp now l q) (hx : s.Eligible clientIp now x)
    (hlt : q.modified < x.modified) : s.Latest clientIp now (l ++ [x]) x :=
  ⟨hx, l, [], rfl, fun _ hy hy' => Int.lt_of_le_of_lt (h.le hy hy') hlt, by simp⟩

theorem stays (h : s.Latest clientIp now l q)
    (hx : s.Eligible clientIp now x → x.modified ≤ q.modified) :
    s.Latest clientIp now (l ++ [x]) q := by
  obtain ⟨l₁, l₂, rfl, hbefore, hbehind⟩ := h.greatest
  refine ⟨h.eligible, l₁, l₂ ++ [x], by simp, hbefore, fun y hy hy' => ?_⟩
  rw [List.mem_append, List.mem_singleton] at hy
  rcases hy with hy | rfl
  · exact hbehind y hy hy'
  · exact hx hy'

end Latest

/-- What the search knows after the entries `seen`: no eligible one has the port of the client,
and `lost` is the latest. -/
structure Searched (s : ServerList) (clientIp : IpAddress) (clientPort : UInt16) (now : Datetime)
    (seen : List PeerInfo) (lost : Option (Nat × Nat)) : Prop where
  ports : ∀ x ∈ seen, s.Eligible clientIp now x → x.srcPort ≠ clientPort
  none : lost = none → ∀ x ∈ seen, ¬s.Eligible clientIp now x
  some : ∀ peer server, lost = some (peer, server) →
    ∃ q, s.ValidSession clientIp now peer server q ∧ s.Latest clientIp now seen q

namespace Searched

variable {seen : List PeerInfo} {lost : Option (Nat × Nat)}

theorem skip (h : s.Searched clientIp clientPort now seen lost)
    (hx : ¬s.Eligible clientIp now x) :
    s.Searched clientIp clientPort now (seen ++ [x]) lost := by
  refine ⟨fun y hy hy' => ?_, fun hnone y hy => ?_, fun peer server hlost => ?_⟩
  · rw [List.mem_append, List.mem_singleton] at hy
    rcases hy with hy | rfl
    · exact h.ports y hy hy'
    · exact absurd hy' hx
  · rw [List.mem_append, List.mem_singleton] at hy
    rcases hy with hy | rfl
    · exact h.none hnone y hy
    · exact hx
  · obtain ⟨q, hvalid, hlatest⟩ := h.some peer server hlost
    exact ⟨q, hvalid, hlatest.stays fun hx' => absurd hx' hx⟩

/-- An eligible entry with another port is compared with the session chosen so far. -/
theorem next {server : Nat} (hx : s.ValidSession clientIp now seen.length server x)
    (hport : x.srcPort ≠ clientPort) : s.Searched clientIp clientPort now seen lost →
    s.Searched clientIp clientPort now (seen ++ [x]) (match lost with
      | .some (peer, server') =>
          if s.prefersSession peer seen.length then .some (seen.length, server)
          else .some (peer, server')
      | .none => .some (seen.length, server)) := by
  intro h
  have hports : ∀ y ∈ seen ++ [x], s.Eligible clientIp now y → y.srcPort ≠ clientPort := by
    intro y hy hy'
    rw [List.mem_append, List.mem_singleton] at hy
    rcases hy with hy | rfl
    · exact h.ports y hy hy'
    · exact hport
  cases lost with
  | none =>
      refine ⟨hports, fun hnone => absurd hnone (Option.some_ne_none _), fun peer server' heq => ?_⟩
      obtain ⟨rfl, rfl⟩ := Prod.mk.inj (Option.some.inj heq)
      exact ⟨x, hx, .first hx.eligible (h.none rfl)⟩
  | some chosen =>
      obtain ⟨peer, server'⟩ := chosen
      obtain ⟨q, hvalid, hlatest⟩ := h.some peer server' rfl
      have hprefers : s.prefersSession peer seen.length = true ↔ q.modified < x.modified := by
        have hstatus := hlatest.eligible.status
        simp only [prefersSession, hvalid.found, hx.found, decide_eq_true_eq]
        exact ⟨fun h => (h.resolve_right hstatus).1, fun h => .inl ⟨h, hstatus⟩⟩
      dsimp only
      by_cases hlt : q.modified < x.modified
      · rw [if_pos (hprefers.mpr hlt)]
        refine ⟨hports, fun hnone => absurd hnone (Option.some_ne_none _),
          fun peer server' heq => ?_⟩
        obtain ⟨rfl, rfl⟩ := Prod.mk.inj (Option.some.inj heq)
        exact ⟨x, hx, hlatest.later hx.eligible hlt⟩
      · rw [if_neg (hprefers.not.mpr hlt)]
        refine ⟨hports, fun hnone => absurd hnone (Option.some_ne_none _),
          fun peer server' heq => ?_⟩
        obtain ⟨rfl, rfl⟩ := Prod.mk.inj (Option.some.inj heq)
        exact ⟨q, hvalid, hlatest.stays fun _ => Int.not_lt.mp hlt⟩

end Searched

/-- What the search ends with. -/
def ScanFinds (s : ServerList) (clientIp : IpAddress) (clientPort : UInt16) (now : Datetime) :
    SessionScan → Prop
  | .nothing => ∀ x ∈ s.peerList, ¬s.Eligible clientIp now x
  | .lost peer server => s.Searched clientIp clientPort now s.peerList (some (peer, server))
  | .reuse peer server => ∃ l₁ q l₂, s.peerList = l₁ ++ q :: l₂ ∧ l₁.length = peer ∧
      (∀ x ∈ l₁, s.Eligible clientIp now x → x.srcPort ≠ clientPort) ∧
      s.ValidSession clientIp now peer server q ∧ q.srcPort = clientPort

theorem scanSessions_finds {seen rest : List PeerInfo} {lost : Option (Nat × Nat)}
    (hlist : s.peerList = seen ++ rest) (h : s.Searched clientIp clientPort now seen lost) :
    s.ScanFinds clientIp clientPort now
      (s.scanSessions clientIp clientPort now rest seen.length lost) := by
  induction rest generalizing seen lost with
  | nil =>
      rw [List.append_nil] at hlist
      rw [← hlist] at h
      cases lost with
      | none => exact h.none rfl
      | some chosen => exact h
  | cons q rest ih =>
      have hlist' : s.peerList = (seen ++ [q]) ++ rest := by simp [hlist]
      have hlength : (seen ++ [q]).length = seen.length + 1 := List.length_append
      have hfound : s.peerList[seen.length]? = some q := by simp [hlist]
      have hskip : ¬s.Eligible clientIp now q → s.ScanFinds clientIp clientPort now
          (s.scanSessions clientIp clientPort now rest (seen.length + 1) lost) := by
        intro hq
        rw [← hlength]
        exact ih hlist' (h.skip hq)
      unfold scanSessions
      by_cases hclient : q.srcIp = clientIp
      · rw [if_pos hclient]
        cases hserver : s.sessionServer q now with
        | none =>
            apply hskip
            intro hq
            obtain ⟨-, i, hi⟩ := eligible_iff.mp hq
            rw [hserver] at hi
            cases hi
        | some server =>
            have hvalid : s.ValidSession clientIp now seen.length server q :=
              ⟨hfound, hclient, hserver⟩
            dsimp only
            by_cases hport : q.srcPort = clientPort
            · rw [if_pos hport]
              exact ⟨seen, q, rest, hlist, rfl, h.ports, hvalid, hport⟩
            · rw [if_neg hport, ← hlength]
              exact ih hlist' (.next hvalid hport h)
      · rw [if_neg hclient]
        exact hskip fun hq => hclient hq.client

/-! ## The call -/

theorem not_eligible_of_no_servers (h : s.serversList = []) (q : PeerInfo) :
    ¬s.Eligible clientIp now q := by
  rintro ⟨-, -, i, srv, hsrv, -⟩
  rw [h] at hsrv
  cases hsrv

/-- The latest session is re-created, the first one with the port of the client is armed again,
or there is none. -/
theorem getServer_sessions (s : ServerList) (clientIp : IpAddress) (clientPort : UInt16)
    (pcm : Option ManagerId) (now : Datetime) (addr parallelAddr : Ptr) :
    (s.reconnectLostSessions = true ∧
        (∀ x ∈ s.peerList, s.Eligible clientIp now x → x.srcPort ≠ clientPort) ∧
        ∃ peer server q, s.ValidSession clientIp now peer server q ∧
          s.Latest clientIp now s.peerList q ∧
          s.getServer clientIp clientPort pcm now addr parallelAddr =
            (s.afterRecreation server clientIp
              (newPeer clientIp clientPort q.dstIp q.dstPort pcm now addr) parallelAddr,
            some (s.withParallel (newPeer clientIp clientPort q.dstIp q.dstPort pcm now addr)
              parallelAddr))) ∨
      (∃ l₁ q l₂ server, s.peerList = l₁ ++ q :: l₂ ∧
        (∀ x ∈ l₁, s.Eligible clientIp now x → x.srcPort ≠ clientPort) ∧
        s.ValidSession clientIp now l₁.length server q ∧ q.srcPort = clientPort ∧
        s.getServer clientIp clientPort pcm now addr parallelAddr =
          (s.afterReuse l₁.length server q clientPort pcm now,
          some (q.rearm clientPort pcm now))) ∨
      (s.reconnectLostSessions = true → ∀ x ∈ s.peerList, ¬s.Eligible clientIp now x) ∧
        s.getServer clientIp clientPort pcm now addr parallelAddr =
          if s.serversList.isEmpty then (s, none)
          else s.assignServer clientIp clientPort pcm now addr parallelAddr := by
  have hstart : s.Searched clientIp clientPort now [] none :=
    ⟨by simp, by simp, fun peer server heq => absurd heq (Option.some_ne_none _).symm⟩
  have hfinds : s.ScanFinds clientIp clientPort now
      (s.scanSessions clientIp clientPort now s.peerList 0 none) :=
    scanSessions_finds rfl hstart
  unfold getServer
  by_cases hempty : s.serversList.isEmpty = true
  · rw [if_pos hempty, if_pos hempty]
    exact .inr (.inr ⟨fun _ q _ => not_eligible_of_no_servers (by simpa using hempty) q, rfl⟩)
  · rw [if_neg hempty, if_neg hempty]
    by_cases hrec : s.reconnectLostSessions = true
    · rw [if_pos hrec]
      revert hfinds
      cases s.scanSessions clientIp clientPort now s.peerList 0 none with
      | nothing =>
          intro hnone
          exact .inr (.inr ⟨fun _ => hnone, rfl⟩)
      | lost peer server =>
          intro hsearched
          obtain ⟨q, hvalid, hlatest⟩ := hsearched.some peer server rfl
          dsimp only
          rw [recreateSession_eq hvalid.found hvalid.client]
          exact .inl ⟨hrec, hsearched.ports, peer, server, q, hvalid, hlatest, rfl⟩
      | reuse peer server =>
          rintro ⟨l₁, q, l₂, hlist, rfl, hports, hvalid, hport⟩
          dsimp only
          rw [reuseSession_eq hvalid.found]
          exact .inr (.inl ⟨l₁, q, l₂, server, hlist, hports, hvalid, hport, rfl⟩)
    · rw [if_neg hrec]
      exact .inr (.inr ⟨fun h => absurd h hrec, rfl⟩)

/-- What `getServer` makes of the sessions of the client. -/
inductive Resumed (s : ServerList) (clientIp : IpAddress) (clientPort : UInt16)
    (pcm : Option ManagerId) (now : Datetime) (addr parallelAddr : Ptr)
    (r : ServerList × Option PeerInfo) : Prop
  | rearmed {l₁ l₂ : List PeerInfo} {q p : PeerInfo} :
      s.peerList = l₁ ++ q :: l₂ → s.Eligible clientIp now q → q.srcPort = clientPort →
      (∀ x ∈ l₁, s.Eligible clientIp now x → x.srcPort ≠ clientPort) →
      r.2 = some p → r.1.peerList = l₁ ++ p :: l₂ → p.addr = q.addr →
      (p.srcIp, p.srcPort) = (clientIp, clientPort) → (p.dstIp, p.dstPort) = (q.dstIp, q.dstPort) →
      p.status = statusConnectingServer.toUInt8 → p.manager = pcm →
      Resumed s clientIp clientPort pcm now addr parallelAddr r
  | recreated {q p : PeerInfo} :
      (∀ x ∈ s.peerList, s.Eligible clientIp now x → x.srcPort ≠ clientPort) →
      s.Latest clientIp now s.peerList q →
      r.2 = some p → p ∈ r.1.peerList → p.addr = addr →
      (p.srcIp, p.srcPort) = (clientIp, clientPort) → (p.dstIp, p.dstPort) = (q.dstIp, q.dstPort) →
      p.status = statusConnectingServer.toUInt8 → p.manager = pcm →
      Resumed s clientIp clientPort pcm now addr parallelAddr r
  | fresh :
      (∀ x ∈ s.peerList, ¬s.Eligible clientIp now x) →
      r = (if s.serversList.isEmpty then (s, none)
        else s.assignServer clientIp clientPort pcm now addr parallelAddr) →
      Resumed s clientIp clientPort pcm now addr parallelAddr r

/-- The first eligible entry with the port of the client is armed again; without one, a new entry
takes the destination of the latest eligible entry; without any, a server is selected. -/
theorem session_resumed (hrec : s.reconnectLostSessions = true) :
    s.Resumed clientIp clientPort pcm now addr parallelAddr
      (s.getServer clientIp clientPort pcm now addr parallelAddr) := by
  rcases getServer_sessions s clientIp clientPort pcm now addr parallelAddr with
    ⟨-, hports, peer, server, q, hvalid, hlatest, hcall⟩ |
    ⟨l₁, q, l₂, server, hlist, hports, hvalid, hport, hcall⟩ | ⟨hnone, hcall⟩
  · rw [hcall]
    refine .recreated hports hlatest rfl ?_ (addr_withParallel _ _ _) ?_ ?_ ?_ ?_
    · rw [peerList_afterRecreation]
      exact List.mem_append_right _ List.mem_cons_self
    · unfold withParallel
      split <;> rfl
    · exact congrArg Prod.snd (route_withParallel s _ _)
    · exact status_withParallel _ _ _
    · unfold withParallel
      split <;> rfl
  · rw [hcall]
    refine .rearmed hlist hvalid.eligible hport hports rfl ?_ rfl ?_ rfl rfl rfl
    · rw [peerList_afterReuse, hlist, modify_length_append]
    · exact congrArg (·, clientPort) hvalid.client
  · exact .fresh (hnone hrec) hcall

theorem reconnects {guard : ServerList → Op → Prop} (hs : ReachableBy guard s) :
    s.reconnectLostSessions = true := by
  refine Reach.invariant (I := fun s => s.reconnectLostSessions = true) ?_ ?_ hs
  · exact fun s hs => hs.fresh.reconnect
  · intro s op t ih _ hstep
    rw [← hstep, (sameConfig_perform s op).reconnect]
    exact ih

/-- A client with an ended entry for each server; the second one ended later. -/
def Sample.twoSessions : ServerList :=
  { Sample.twoServers with
    peerList := [⟨100, Sample.client, 5000, Sample.server1, 80,
        statusServerDisconnectedOk.toUInt8, none, some 1, 3, 5⟩,
      ⟨101, Sample.client, 5001, Sample.server2, 80,
        statusServerConnectionLost.toUInt8, none, some 1, 4, 7⟩] }

theorem session_resumed_latest :
    ((Sample.twoSessions.getServer Sample.client 6000 (some 2) 10 102 200).2.map fun q =>
        (q.addr, q.dstIp, q.dstPort)) = some (102, Sample.server2, 80) ∧
      Sample.twoSessions.Resumed Sample.client 6000 (some 2) 10 102 200
        (Sample.twoSessions.getServer Sample.client 6000 (some 2) 10 102 200) :=
  ⟨by decide +kernel, session_resumed rfl⟩

end ServerList

end Relb
