import Mathlib.Data.List.Nodup
import Mathlib.Data.List.Range
import Relb.Lib.Keyed
import Relb.Model.CloseRequests
import Relb.Proofs.PeerBasics
/-!
# Close requests that are never offered

A scan looks at the request on top once for each peer, and removes what is on top when it is done.
A request that comes in during a scan is offered to the peers behind only, and it is the one that
is removed. Without such a request a scan is the one step that `ThreadedConnectionManager` takes.
-/

namespace Relb

open Lib

namespace CloseRequests

variable {s t : CloseRequests} {place : PeerPlace} {op : Op} {offered : List (Nat × PeerPlace)}
  {height : Nat} {scanned : List PeerPlace}

/-- Every request has been offered to all peers in the scan that has removed it. -/
def NothingLost (s : CloseRequests) : Prop := ∀ r ∈ s.removed, r.2 = []

/-- A request is only removed if none has come in since this scan looked at the first one. -/
def Undisturbed (s : CloseRequests) (op : Op) : Prop :=
  op = .advance → s.point = .pop → ∀ first ∈ s.offered.head?, first.1 = s.toBeClosed.length

/-! ## What a scan knows -/

/-- The places in front of `place`, in the order of a scan. -/
def before (s : CloseRequests) (place : PeerPlace) : List PeerPlace :=
  match place.kind with
  | .connected => firstPlaces .connected place.index
  | .connecting =>
      firstPlaces .connected s.peerList.length ++ firstPlaces .connecting place.index

/-- The scan has offered one request at each of the places in `scanned`; what was on top has only
been covered since, and something is still there. -/
structure InScan (offered : List (Nat × PeerPlace)) (height : Nat) (scanned : List PeerPlace) :
    Prop where
  places : offered.map Prod.snd = scanned
  ordered : (offered.map Prod.fst).Pairwise (· ≤ ·)
  below : ∀ o ∈ offered, o.1 ≤ height
  waiting : 0 < height

/-- What holds where the loop stands. -/
def AtPoint (s : CloseRequests) : ClosePoint → Prop
  | .count => True
  | .top place => place.index ≤ (s.peers place.kind).length ∧
      InScan s.offered s.toBeClosed.length (s.before place)
  | .offer place height _ => place.index < (s.peers place.kind).length ∧
      (∀ o ∈ s.offered, o.1 ≤ height) ∧ height ≤ s.toBeClosed.length ∧
      InScan s.offered s.toBeClosed.length (s.before place)
  | .pop => InScan s.offered s.toBeClosed.length s.places
  | .ended => True

theorem mem_firstPlaces {kind : PeerKind} {n : Nat} :
    place ∈ firstPlaces kind n ↔ place.kind = kind ∧ place.index < n := by
  obtain ⟨kind', i⟩ := place
  simp [firstPlaces, and_comm, eq_comm]

theorem nodup_firstPlaces (kind : PeerKind) (n : Nat) : (firstPlaces kind n).Nodup :=
  List.nodup_range.map fun _ _ h => congrArg PeerPlace.index h

theorem nodup_places (s : CloseRequests) : s.places.Nodup := by
  refine List.nodup_append.mpr ⟨nodup_firstPlaces _ _, nodup_firstPlaces _ _, ?_⟩
  rintro a ha _ hb rfl
  have hkind := (mem_firstPlaces.mp ha).1.symm.trans (mem_firstPlaces.mp hb).1
  cases hkind

theorem before_next (s : CloseRequests) (place : PeerPlace) :
    s.before place.next = s.before place ++ [place] := by
  obtain ⟨kind, i⟩ := place
  cases kind <;> simp [before, PeerPlace.next, firstPlaces, List.range_succ]

theorem atPoint_behind (hend : place.index = (s.peers place.kind).length)
    (h : InScan s.offered s.toBeClosed.length (s.before place)) :
    s.AtPoint (behind place.kind) := by
  obtain ⟨kind, i⟩ := place
  cases kind with
  | connected =>
      obtain rfl : i = s.peerList.length := hend
      refine ⟨Nat.zero_le _, ?_⟩
      simpa [before, firstPlaces] using h
  | connecting =>
      obtain rfl : i = s.connectingPeerList.length := hend
      exact h

theorem InScan.higher {height' : Nat} (h : InScan offered height scanned)
    (hle : height ≤ height') : InScan offered height' scanned where
  places := h.places
  ordered := h.ordered
  below o ho := Nat.le_trans (h.below o ho) hle
  waiting := Nat.lt_of_lt_of_le h.waiting hle

theorem InScan.offer {top : Nat} (h : InScan offered height scanned)
    (hnew : ∀ o ∈ offered, o.1 ≤ top) (htop : top ≤ height) (place : PeerPlace) :
    InScan (offered ++ [(top, place)]) height (scanned ++ [place]) := by
  constructor
  case places => simp [h.places]
  case ordered =>
    rw [List.map_append, List.pairwise_append]
    refine ⟨h.ordered, List.pairwise_singleton _ _, fun a ha b hb => ?_⟩
    obtain ⟨o, ho, rfl⟩ := List.mem_map.mp ha
    rw [List.map_singleton, List.mem_singleton] at hb
    rw [hb]
    exact hnew o ho
  case below =>
    intro o ho
    rcases List.mem_append.mp ho with ho | ho
    · exact h.below o ho
    · rw [List.mem_singleton.mp ho]
      exact htop
  case waiting => exact h.waiting

theorem length_peers_closeAt (s : CloseRequests) (pinfo : Option Ptr) (place : PeerPlace)
    (kind : PeerKind) : ((s.closeAt pinfo place).peers kind).length = (s.peers kind).length := by
  obtain ⟨kind', i⟩ := place
  cases kind <;> cases kind' <;> simp [closeAt, setPeers, peers]

theorem before_closeAt (s : CloseRequests) (pinfo : Option Ptr) (place place' : PeerPlace) :
    (s.closeAt pinfo place).before place' = s.before place' := by
  have hlength : (s.closeAt pinfo place).peerList.length = s.peerList.length :=
    length_peers_closeAt s pinfo place .connected
  unfold before
  rw [hlength]

@[simp] theorem toBeClosed_closeAt (s : CloseRequests) (pinfo : Option Ptr) (place : PeerPlace) :
    (s.closeAt pinfo place).toBeClosed = s.toBeClosed := by
  unfold closeAt setPeers
  split <;> rfl

@[simp] theorem removed_closeAt (s : CloseRequests) (pinfo : Option Ptr) (place : PeerPlace) :
    (s.closeAt pinfo place).removed = s.removed := by
  unfold closeAt setPeers
  split <;> rfl

/-! ## The removal of a request -/

/-- Each place has been offered one request, and all are the first if the first is on top. -/
theorem missed_eq_nil_iff (h : InScan s.offered s.toBeClosed.length s.places) :
    s.missed = [] ↔ ∀ first ∈ s.offered.head?, first.1 = s.toBeClosed.length := by
  unfold missed
  simp only [List.filter_eq_nil_iff, decide_not, Bool.not_eq_true', decide_eq_false_iff_not,
    Decidable.not_not]
  cases hoffered : s.offered with
  | nil =>
      have hnone : s.places = [] := by rw [← h.places, hoffered]; rfl
      simp [hnone]
  | cons first rest =>
      simp only [List.head?_cons, Option.mem_def, Option.some.injEq, forall_eq']
      have hfirst : first ∈ s.offered := by rw [hoffered]; exact List.mem_cons_self
      rw [← hoffered]
      constructor
      · intro hall
        have hplace : first.2 ∈ s.places := by
          rw [← h.places]
          exact List.mem_map_of_mem hfirst
        have hnodup : (s.offered.map Prod.snd).Nodup := by
          rw [h.places]
          exact nodup_places s
        exact congrArg Prod.fst (List.inj_on_of_nodup_map hnodup hfirst (hall _ hplace) rfl)
      · intro htop place hplace
        rw [← h.places] at hplace
        obtain ⟨o, ho, rfl⟩ := List.mem_map.mp hplace
        have hle : first.1 ≤ o.1 := by
          have hordered := h.ordered
          rw [hoffered] at ho hordered
          rcases List.mem_cons.mp ho with rfl | ho
          · exact Nat.le_refl _
          · exact (List.pairwise_cons.mp hordered).1 _ (List.mem_map_of_mem ho)
        have hbelow := h.below o ho
        have hsame : (s.toBeClosed.length, o.2) = o := Prod.ext (by dsimp only; omega) rfl
        rw [hsame]
        exact ho

/-! ## Runs -/

/-- What holds along a run in which every removal is undisturbed. -/
def Sound (s : CloseRequests) : Prop := s.NothingLost ∧ s.AtPoint s.point

theorem sound_start (peerList connectingPeerList : List ConnectionPeer)
    (toBeClosed : List (Option Ptr)) : (start peerList connectingPeerList toBeClosed).Sound :=
  ⟨fun _ hr => absurd hr List.not_mem_nil, trivial⟩

theorem sound_offered {pinfo : Option Ptr} (hlost : s.NothingLost)
    (hpoint : s.AtPoint (.offer place height pinfo)) :
    Sound { s.closeAt pinfo place with
      offered := s.offered ++ [(height, place)]
      point := .top place.next } := by
  obtain ⟨hhas, hnew, hheight, hscan⟩ := hpoint
  refine ⟨fun r hr => hlost r (removed_closeAt s pinfo place ▸ hr), ?_, ?_⟩
  · change place.index + 1 ≤ ((s.closeAt pinfo place).peers place.kind).length
    rw [length_peers_closeAt]
    exact hhas
  · change InScan (s.offered ++ [(height, place)]) (s.closeAt pinfo place).toBeClosed.length
      ((s.closeAt pinfo place).before place.next)
    rw [toBeClosed_closeAt, before_closeAt, before_next]
    exact hscan.offer hnew hheight place

theorem sound_popped {pinfo : Option Ptr} (hlost : s.NothingLost) (hpoint : s.AtPoint .pop)
    (hquiet : ∀ first ∈ s.offered.head?, first.1 = s.toBeClosed.length) :
    Sound { s with
      toBeClosed := s.toBeClosed.dropLast
      removed := s.removed ++ [(pinfo, s.missed)]
      point := .count } := by
  refine ⟨fun r hr => ?_, trivial⟩
  rcases List.mem_append.mp hr with hr | hr
  · exact hlost r hr
  · rw [List.mem_singleton.mp hr]
    exact (missed_eq_nil_iff hpoint).mpr hquiet

theorem sound_advance (h : s.Sound) (hquiet : s.Undisturbed .advance)
    (hstep : s.advance = .ok t) : t.Sound := by
  obtain ⟨hlost, hpoint⟩ := h
  unfold advance at hstep
  cases hp : s.point with
  | count =>
      rw [hp] at hstep
      obtain rfl := Except.ok.inj hstep
      refine ⟨hlost, ?_⟩
      dsimp only
      split
      · rename_i hsome
        exact ⟨Nat.zero_le _, rfl, List.Pairwise.nil, by simp, hsome⟩
      · trivial
  | top place =>
      rw [hp] at hstep hpoint
      obtain ⟨hwithin, hscan⟩ := hpoint
      dsimp only at hstep
      split at hstep
      · rename_i hhas
        cases htop : s.toBeClosed.getLast? with
        | none => rw [htop] at hstep; cases hstep
        | some pinfo =>
            rw [htop] at hstep
            obtain rfl := Except.ok.inj hstep
            exact ⟨hlost, hhas, hscan.below, Nat.le_refl _, hscan⟩
      · rename_i hend
        obtain rfl := Except.ok.inj hstep
        exact ⟨hlost, atPoint_behind (Nat.le_antisymm hwithin (Nat.le_of_not_lt hend)) hscan⟩
  | offer place height pinfo =>
      rw [hp] at hstep hpoint
      obtain rfl := Except.ok.inj hstep
      exact sound_offered hlost hpoint
  | pop =>
      rw [hp] at hstep hpoint
      dsimp only at hstep
      cases htop : s.toBeClosed.getLast? with
      | none => rw [htop] at hstep; cases hstep
      | some pinfo =>
          rw [htop] at hstep
          obtain rfl := Except.ok.inj hstep
          exact sound_popped hlost hpoint (hquiet rfl hp)
  | ended =>
      rw [hp] at hstep
      obtain rfl := Except.ok.inj hstep
      exact ⟨hlost, hp ▸ trivial⟩

theorem sound_perform (h : s.Sound) (hquiet : s.Undisturbed op) (hstep : s.perform op = .ok t) :
    t.Sound := by
  cases op with
  | advance => exact sound_advance h hquiet hstep
  | closePInfo pinfo =>
      obtain rfl := Except.ok.inj hstep
      obtain ⟨hlost, hpoint⟩ := h
      refine ⟨hlost, ?_⟩
      have hhigher : s.toBeClosed.length ≤ (s.toBeClosed ++ [pinfo]).length := by simp
      dsimp only
      cases hp : s.point with
      | count => trivial
      | top place =>
          rw [hp] at hpoint
          exact ⟨hpoint.1, hpoint.2.higher hhigher⟩
      | offer place height top =>
          rw [hp] at hpoint
          obtain ⟨hhas, hnew, hheight, hscan⟩ := hpoint
          exact ⟨hhas, hnew, Nat.le_trans hheight hhigher, hscan.higher hhigher⟩
      | pop =>
          rw [hp] at hpoint
          exact InScan.higher hpoint hhigher
      | ended => trivial
  | rest peerList connectingPeerList =>
      obtain rfl := Except.ok.inj hstep
      split
      · exact ⟨h.1, trivial⟩
      · exact h

theorem lost_of_disturbed (h : s.Sound) (hdisturbed : ¬s.Undisturbed op) :
    ∃ t, s.perform op = .ok t ∧ ¬t.NothingLost := by
  unfold Undisturbed at hdisturbed
  push Not at hdisturbed
  obtain ⟨rfl, hp, first, hfirst, hother⟩ := hdisturbed
  obtain ⟨-, hscan⟩ := h
  rw [hp] at hscan
  cases htop : s.toBeClosed.getLast? with
  | none =>
      have hempty := List.getLast?_eq_none_iff.mp htop
      have hwaiting := hscan.waiting
      simp [hempty] at hwaiting
  | some pinfo =>
      refine ⟨_, by rw [perform, advance, hp]; dsimp only; rw [htop], fun hlost => ?_⟩
      have hnone := hlost (pinfo, s.missed) (by simp)
      exact hother ((missed_eq_nil_iff hscan).mp hnone first hfirst)

/-- No request is lost along a run exactly when no removal is disturbed. -/
theorem nothingLost_along_iff (peerList connectingPeerList : List ConnectionPeer)
    (toBeClosed : List (Option Ptr)) (ops : List Op) :
    Along perform NothingLost (start peerList connectingPeerList toBeClosed) ops ↔
      Clear perform Undisturbed (start peerList connectingPeerList toBeClosed) ops :=
  along_iff_clear (fun _ h => h.1) (fun _ _ _ => sound_perform) (fun _ _ => lost_of_disturbed)
    (sound_start peerList connectingPeerList toBeClosed) ops

namespace Sample

open ConnectionPeer.Sample

def owner (info : Ptr) : ConnectionPeer :=
  .create (fun _ _ => 0) (some client) (some server) true (some info)

/-- A request for the first peer comes in when this peer has just been offered another one, and
the loop goes on to its end. -/
def interrupted : List Op :=
  List.replicate 3 .advance ++ .closePInfo (some 1) :: List.replicate 15 .advance

end Sample

/-- The requests are gone, and the first peer is still active. -/
theorem request_lost :
    ¬Along perform NothingLost (start [Sample.owner 1, Sample.owner 2] [] [some 2])
        Sample.interrupted ∧
      ∃ t, runAll perform (start [Sample.owner 1, Sample.owner 2] [] [some 2]) Sample.interrupted =
          .ok t ∧
        t.point = .ended ∧ t.toBeClosed = [] ∧
        t.peerList.map ConnectionPeer.isActive = [true, false] := by
  refine ⟨fun h => ?_, _, rfl, by decide +kernel⟩
  have hmissed := h.of_runAll rfl (some 1, [⟨.connected, 0⟩]) List.mem_cons_self
  cases hmissed

/-! ## A scan that nobody interrupts -/

theorem setPeers_peers (s : CloseRequests) (kind : PeerKind) :
    s.setPeers kind (s.peers kind) = s := by
  cases kind <;> rfl

/-- A loop over one of the lists passes the request on top to all peers that are left. -/
theorem scan_list (kind : PeerKind) {pinfo : Option Ptr} (rest : List ConnectionPeer) :
    ∀ (s : CloseRequests) (done : List ConnectionPeer), s.point = .top ⟨kind, done.length⟩ →
      s.peers kind = done ++ rest → s.toBeClosed.getLast? = some pinfo →
      ∃ offered, runAll perform s (List.replicate (2 * rest.length + 1) .advance) =
        .ok { s.setPeers kind (done ++ rest.map (·.closePInfo pinfo)) with
          offered := offered
          point := behind kind } := by
  induction rest with
  | nil =>
      intro s done hpoint hpeers htop
      refine ⟨s.offered, ?_⟩
      have hend : s.perform .advance = .ok { s with point := behind kind } := by
        simp [perform, advance, hpoint, hpeers]
      rw [List.map_nil, ← hpeers, setPeers_peers]
      exact runAll_cons_of_ok hend []
  | cons p rest ih =>
      intro s done hpoint hpeers htop
      have hlook : s.perform .advance =
          .ok { s with point := .offer ⟨kind, done.length⟩ s.toBeClosed.length pinfo } := by
        simp [perform, advance, hpoint, hpeers, htop]
      let t : CloseRequests := { s.closeAt pinfo ⟨kind, done.length⟩ with
        offered := s.offered ++ [(s.toBeClosed.length, ⟨kind, done.length⟩)]
        point := .top ⟨kind, done.length + 1⟩ }
      have hoffer : perform { s with
          point := .offer ⟨kind, done.length⟩ s.toBeClosed.length pinfo } .advance = .ok t := by
        cases kind <;> rfl
      have hpeers' : t.peers kind = done ++ [p.closePInfo pinfo] ++ rest := by
        have hclosed : t.peers kind = (s.peers kind).modify done.length (·.closePInfo pinfo) := by
          cases kind <;> rfl
        rw [hclosed, hpeers, modify_append_cons, List.append_assoc, List.singleton_append]
      obtain ⟨offered, hrun⟩ := ih t (done ++ [p.closePInfo pinfo])
        (by simp [t]) hpeers' (by rw [← htop]; exact congrArg _ (toBeClosed_closeAt s pinfo _))
      refine ⟨offered, ?_⟩
      have hset : t.setPeers kind (done ++ (p :: rest).map (·.closePInfo pinfo)) =
          { s.setPeers kind (done ++ (p :: rest).map (·.closePInfo pinfo)) with
            offered := t.offered
            point := t.point } := by cases kind <;> rfl
      calc
        runAll perform s (List.replicate (2 * (p :: rest).length + 1) .advance)
        _ = runAll perform t (List.replicate (2 * rest.length + 1) .advance) := by
          rw [List.length_cons, Nat.mul_succ, Nat.add_right_comm]
          exact (runAll_cons_of_ok hlook _).trans (runAll_cons_of_ok hoffer _)
        _ = _ := by
          rw [hrun, List.append_assoc, List.singleton_append, ← List.map_cons, hset]

/-- Left alone, a scan does what the manager does with a request in one step. -/
theorem scan_serves {pinfo : Option Ptr} (hpoint : s.point = .count)
    (htop : s.toBeClosed.getLast? = some pinfo) :
    ∃ n t, runAll perform s (List.replicate n .advance) = .ok t ∧ t.point = .count ∧
      s.manager.serveRequest.map Prod.fst = some t.manager := by
  have hwaiting : 0 < s.toBeClosed.length := by
    cases hstack : s.toBeClosed with
    | nil => rw [hstack] at htop; cases htop
    | cons top rest => exact Nat.succ_pos _
  have hcount : s.perform .advance =
      .ok { s with offered := [], point := .top ⟨.connected, 0⟩ } := by
    simp [perform, advance, hpoint, hwaiting]
  obtain ⟨offered₁, hpeers⟩ := scan_list .connected s.peerList
    { s with offered := [], point := .top ⟨.connected, 0⟩ } [] rfl rfl htop
  obtain ⟨offered₂, hconnecting⟩ := scan_list .connecting s.connectingPeerList
    { s with
      peerList := s.peerList.map (·.closePInfo pinfo)
      offered := offered₁
      point := .top ⟨.connecting, 0⟩ } [] rfl rfl htop
  let scanned : CloseRequests := { s with
    peerList := s.peerList.map (·.closePInfo pinfo)
    connectingPeerList := s.connectingPeerList.map (·.closePInfo pinfo)
    offered := offered₂
    point := .pop }
  let served : CloseRequests := { scanned with
    toBeClosed := s.toBeClosed.dropLast
    removed := s.removed ++ [(pinfo, scanned.missed)]
    point := .count }
  have hpop : scanned.perform .advance = .ok served := by
    simp [perform, advance, scanned, served, htop]
  refine ⟨2 * s.peerList.length + 1 + (2 * s.connectingPeerList.length + 1 + 1) + 1, served, ?_,
    rfl, ?_⟩
  · rw [List.replicate_succ, runAll_cons_of_ok hcount, List.replicate_add,
      runAll_append_of_ok hpeers, List.replicate_add]
    exact (runAll_append_of_ok hconnecting _).trans (runAll_cons_of_ok hpop [])
  · simp [manager, ThreadedConnectionManager.serveRequest, scanned, served, htop]

end CloseRequests

end Relb
