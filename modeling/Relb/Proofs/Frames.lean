import Relb.Proofs.Messages
/-!
# What a call leaves alone

`getServer` works on the entries of its client only, whichever way it takes, and a message
works on the entry it names and on the server of that entry.
-/

namespace Relb

open Lib

namespace ServerList

variable {s t : ServerList} {q pinfo : PeerInfo} {clientIp : IpAddress} {clientPort : UInt16}
  {pcm : Option ManagerId} {now : Datetime} {addr parallelAddr : Ptr} {id : UInt32}
  {index j : Nat}

/-- The entries of the other clients. -/
def others (clientIp : IpAddress) (l : List PeerInfo) : List PeerInfo :=
  l.filter fun q => q.srcIp != clientIp

theorem others_append_own (l : List PeerInfo) (h : q.srcIp = clientIp) :
    others clientIp (l ++ [q]) = others clientIp l := by
  simp [others, h]

/-- A call keeps the entries of the other clients, in order. -/
theorem Outcome.others {r : ServerList × Option PeerInfo}
    (h : s.Outcome clientIp clientPort pcm now addr parallelAddr r) :
    ServerList.others clientIp r.1.peerList = ServerList.others clientIp s.peerList := by
  have hnew : ∀ dstIp dstPort, (s.withParallel (newPeer clientIp clientPort dstIp dstPort pcm now
      addr) parallelAddr).srcIp = clientIp := fun dstIp dstPort =>
    congrArg Prod.fst (route_withParallel s (newPeer clientIp clientPort dstIp dstPort pcm now
      addr) parallelAddr)
  cases h with
  | refused last hnone hassign => rfl
  | reused hvalid hport hreused hassign =>
      rw [peerList_afterReuse]
      apply filter_modify
      intro a ha
      obtain rfl := Option.some.inj (hvalid.found.symm.trans ha)
      simp [hvalid.client, PeerInfo.rearm]
  | recreated hvalid hassign =>
      rw [peerList_afterRecreation, others_append_own _ (hnew _ _), ServerList.others,
        List.filter_filter]
      apply List.filter_congr
      intro x hx
      by_cases hclient : x.srcIp = clientIp
      · simp [hclient]
      · simp [hclient, isLostOf]
  | assigned hnone hsrv hallowed hassign =>
      rw [peerList_afterAssignment, others_append_own _ (hnew _ _)]

/-- What a message may do: it changes or drops the entry it names, and works on its server. -/
inductive Touches (s : ServerList) (msg : Message) (t : ServerList) : Prop
  | nothing : (∀ q ∈ s.peerList, q.addr ≠ msg.param) → t = s → Touches s msg t
  | entry {l₁ l₂ : List PeerInfo} {q : PeerInfo} (new : Option PeerInfo) :
      s.peerList = l₁ ++ q :: l₂ → q.addr = msg.param → t.peerList = l₁ ++ new.toList ++ l₂ →
      (∀ q' ∈ new, ∃ status modified, q' = { q with status := status, modified := modified }) →
      (∀ j, s.dstServer q ≠ some j → t.serversList[j]? = s.serversList[j]?) → Touches s msg t

theorem serversList_countMessage_of_ne (h : s.dstServer pinfo ≠ some j) :
    (s.countMessage index pinfo id now).serversList[j]? = s.serversList[j]? := by
  unfold countMessage
  dsimp only
  split_ifs
  · rw [(endConnection_spec s index pinfo id now).2, getElem?_elim_modify_of_ne h]
  · rw [(establishConnection_spec s pinfo now).2, getElem?_elim_modify_of_ne h]
  · rfl

theorem touches_processMessage (s : ServerList) (msg : Message) (now : Datetime) :
    s.Touches msg (s.processMessage msg now) := by
  rcases processMessage_cases s msg now with ⟨hnone, hsame⟩ | ⟨index, pinfo, hq, haddr, hmsg⟩
  · exact .nothing hnone hsame
  · obtain ⟨hindex, hget⟩ := List.getElem?_eq_some_iff.mp hq
    have hsplit : s.peerList = s.peerList.take index ++ pinfo :: s.peerList.drop (index + 1) := by
      rw [← hget, ← List.drop_eq_getElem_cons hindex, List.take_append_drop]
    have hlength : (s.peerList.take index).length = index :=
      List.length_take_of_le (Nat.le_of_lt hindex)
    generalize s.peerList.take index = l₁ at hsplit hlength
    generalize s.peerList.drop (index + 1) = l₂ at hsplit
    subst hlength
    have hservers : ∀ j, s.dstServer pinfo ≠ some j →
        (s.processMessage msg now).serversList[j]? = s.serversList[j]? := by
      intro j hj
      rw [← (sameConfig_recordMessage s l₁.length pinfo msg.id now).dstServer] at hj
      rw [hmsg, serversList_countMessage_of_ne hj, serversList_recordMessage]
    have hrecorded : ∃ status modified,
        (s.recordMessage l₁.length pinfo msg.id now).peerList =
          l₁ ++ { pinfo with status := status, modified := modified } :: l₂ := by
      rw [peerList_recordMessage]
      split
      · exact ⟨pinfo.status, pinfo.modified, hsplit⟩
      · exact ⟨_, _, by rw [hsplit, modify_length_append]; rfl⟩
    obtain ⟨status, modified, hrecorded⟩ := hrecorded
    rcases peerList_countMessage (s.recordMessage l₁.length pinfo msg.id now) l₁.length pinfo
      msg.id now with hcount | hcount
    · refine .entry (some { pinfo with status := status, modified := modified }) hsplit haddr ?_
        (fun q' hq' => ⟨status, modified, (Option.some.inj hq').symm⟩) hservers
      rw [hmsg, hcount, hrecorded]
      simp
    · refine .entry none hsplit haddr ?_ (fun q' hq' => nomatch hq') hservers
      rw [hmsg, hcount, hrecorded]
      simp [List.eraseIdx_append_of_length_le]

/-- A call of one client keeps the entries of the others as they are, and a message changes
nothing but the entry it names and the server that entry is counted for. -/
theorem clients_undisturbed :
    (∀ (s : ServerList) clientIp clientPort pcm now addr parallelAddr,
      others clientIp (s.getServer clientIp clientPort pcm now addr parallelAddr).1.peerList =
        others clientIp s.peerList) ∧
      ∀ (s : ServerList) msg now, s.Touches msg (s.processMessage msg now) :=
  ⟨fun s clientIp clientPort pcm now addr parallelAddr =>
    (getServer_outcome s clientIp clientPort pcm now addr parallelAddr).others,
    touches_processMessage⟩

end ServerList

end Relb
