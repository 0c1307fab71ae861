import Relb.Proofs.Requests
/-!
# Malformed requests

A line without a page that acts on a client is harmless, whatever its parameters are. A line of an
action is harmless if it has both of them; nothing checks that. A line of four bytes is too short
for the comparison with a page, which then reads what an earlier line has left behind.
-/

namespace Relb

open Lib

variable {line s t : List Char} {h i : Nat} {q : PeerParams} {name : String}
  {redirection : Bool} {call : PageCall}

/-- What `ban`, `kick` or `ban_all` is called with. -/
def PageCall.params : PageCall → Option PeerParams
  | .ban q | .kick q | .banAll q => some q
  | .list _ | .servers | .redirect => none

/-- The line is handled without a read behind it, no action gets `NULL`, and the actions do not read
behind the line either. -/
def Harmless (line : List Char) (redirection : Bool) : Prop :=
  ∃ calls redirection', getLine line redirection = .ok (calls, redirection') ∧
    ∀ call ∈ calls, ∀ q, call.params = some q → ∃ peer, q.peer (cutLine line) = some (.ok peer)

def actionPages : List String := [webPageBan, webPageKick, webPageBanAll]

/-- The parameter stands right behind a separator, from index 5 on. -/
def HasParam (line : List Char) (name : String) : Prop :=
  ∃ front c rest, line.drop 5 = front ++ c :: rest ∧ isSeparator c = true ∧
    startsWith rest name = true

/-! ## Parameters -/

/-- In the cut text it stands behind a zero. -/
def BehindNul (s : List Char) (name : String) : Prop :=
  ∃ front c rest, s = front ++ c :: rest ∧ c = '\x00' ∧ startsWith rest name = true

theorem behindNul_cut (hname : IsPlain name.toList) (line : List Char) :
    BehindNul ((line.drop 5).map cutChar) name ↔ HasParam line name := by
  constructor
  · rintro ⟨front, c, rest, hsplit, rfl, hprefix⟩
    obtain ⟨front', after, hdrop, rfl, hafter⟩ := List.map_eq_append_iff.mp hsplit
    obtain ⟨c, rest', rfl, hc, rfl⟩ := List.map_eq_cons_iff.mp hafter
    rw [startsWith_cut hname] at hprefix
    exact ⟨front', c, rest', hdrop, cutChar_eq_nul.mp hc, hprefix⟩
  · rintro ⟨front, c, rest, hdrop, hc, hprefix⟩
    refine ⟨front.map cutChar, '\x00', rest.map cutChar, ?_, rfl, ?_⟩
    · rw [hdrop, List.map_append, List.map_cons, cutChar_eq_nul.mpr hc]
    · rw [startsWith_cut hname, hprefix]

theorem isSome_peerParamsOf {pointer : PeerParams → Option Nat}
    (hstep : ∀ i s q, (pointer (peerParamOf i s q)).isSome = true ↔
      (pointer q).isSome = true ∨ startsWith s name = true)
    (hnull : pointer ⟨none, none⟩ = none) (s : List Char) :
    (pointer (peerParamsOf s)).isSome = true ↔ BehindNul s name := by
  have hsweep : ∀ i c s q, (pointer (behindNul peerParamOf i (c :: s) q)).isSome = true ↔
      (pointer q).isSome = true ∨
        (c :: s).head? = some '\x00' ∧ startsWith (c :: s).tail name = true := by
    intro i c s q
    rw [behindNul, List.head?_cons, List.tail_cons, Option.some.injEq]
    split
    · rename_i hnul
      rw [hstep, and_iff_right hnul]
    · rename_i hother
      simp [hother]
  unfold peerParamsOf
  rw [sweep_iff (P := fun q => (pointer q).isSome = true)
    (Q := fun s => s.head? = some '\x00' ∧ startsWith s.tail name = true) hsweep, hnull]
  simp [BehindNul]

theorem srcIp_peerParamOf (i : Nat) (s : List Char) (q : PeerParams) :
    (peerParamOf i s q).srcIp.isSome = true ↔
      q.srcIp.isSome = true ∨ startsWith s textSrcIpParam = true := by
  unfold peerParamOf onParamOf afterTag
  cases startsWith s textSrcIpParam <;> cases startsWith s textSrcPortParam <;> simp

theorem srcPort_peerParamOf (i : Nat) (s : List Char) (q : PeerParams) :
    (peerParamOf i s q).srcPort.isSome = true ↔
      q.srcPort.isSome = true ∨ startsWith s textSrcPortParam = true := by
  unfold peerParamOf onParamOf afterTag
  cases startsWith s textSrcIpParam <;> cases startsWith s textSrcPortParam <;> simp

theorem peerParamsOf_isSome_iff (line : List Char) :
    ((peerParamsOf ((line.drop 5).map cutChar)).srcIp.isSome = true ∧
        (peerParamsOf ((line.drop 5).map cutChar)).srcPort.isSome = true) ↔
      HasParam line textSrcIpParam ∧ HasParam line textSrcPortParam := by
  rw [isSome_peerParamsOf srcIp_peerParamOf rfl, isSome_peerParamsOf srcPort_peerParamOf rfl,
    behindNul_cut (by decide), behindNul_cut (by decide)]

/-- A pointer is `NULL`, or it points into the line. -/
structure PointsInto (line : List Char) (q : PeerParams) : Prop where
  srcIp : ∀ v ∈ q.srcIp, ∃ t, Stands line v t
  srcPort : ∀ v ∈ q.srcPort, ∃ t, Stands line v t

theorem PointsInto.peerParamOf (hs : Stands line h s) (hq : PointsInto line q) :
    PointsInto line (peerParamOf h s q) := by
  have hvalue : ∀ {name}, startsWith s name = true →
      ∃ t, Stands line (h + name.toList.length) t := by
    intro name hname
    obtain ⟨rest, rfl⟩ := List.isPrefixOf_iff_prefix.mp hname
    exact ⟨rest, hs.append⟩
  unfold Relb.peerParamOf onParamOf afterTag
  constructor
  case srcIp =>
    cases hip : startsWith s textSrcIpParam with
    | false => cases startsWith s textSrcPortParam <;> exact hq.srcIp
    | true =>
        cases startsWith s textSrcPortParam <;>
          exact fun v hv => Option.some.inj hv ▸ hvalue hip
  case srcPort =>
    cases hport : startsWith s textSrcPortParam with
    | false => cases startsWith s textSrcIpParam <;> exact hq.srcPort
    | true => exact fun v hv => Option.some.inj hv ▸ hvalue hport

theorem pointsInto_peerParamsOf (hs : Stands line 5 s) : PointsInto line (peerParamsOf s) := by
  unfold peerParamsOf
  apply hs.sweep_keeps (P := PointsInto line)
  case hst => exact ⟨fun v hv => (nomatch hv), fun v hv => (nomatch hv)⟩
  case hg =>
    intro i c s q hs hq
    rw [behindNul]
    split
    · exact hq.peerParamOf hs.next
    · exact hq

theorem PointsInto.peer_iff (hq : PointsInto line q) :
    (∃ peer, q.peer line = some (.ok peer)) ↔
      q.srcIp.isSome = true ∧ q.srcPort.isSome = true := by
  obtain ⟨srcIp, srcPort⟩ := q
  cases srcIp with
  | none => simp [PeerParams.peer]
  | some i =>
      cases srcPort with
      | none => simp [PeerParams.peer]
      | some j =>
          obtain ⟨s, hs⟩ := hq.srcIp i rfl
          obtain ⟨t, ht⟩ := hq.srcPort j rfl
          exact iff_of_true ⟨_, congrArg some (peerAt_eq hs ht)⟩ ⟨rfl, rfl⟩

/-! ## Calls -/

theorem mem_answer {calls : List PageCall} (hparams : call.params = some q)
    (h : call ∈ (answer calls redirection).1) : call ∈ calls := by
  unfold answer at h
  dsimp only at h
  split at h
  · rcases List.mem_append.mp h with h | h
    · exact h
    · obtain rfl := List.mem_singleton.mp h
      cases hparams
  · exact h

theorem params_of_mem_pageCallsOf (hcall : call ∈ pageCallsOf s) (hparams : call.params = some q) :
    q = peerParamsOf s ∧ ∃ page ∈ actionPages, isText s page = true := by
  have hone : ∀ {page : String} {c : PageCall},
      call ∈ (if isText s page then [c] else []) → isText s page = true ∧ call = c := by
    intro page c hmem
    split at hmem
    · rename_i hpage
      exact ⟨hpage, List.mem_singleton.mp hmem⟩
    · cases hmem
  unfold pageCallsOf at hcall
  simp only [List.mem_append] at hcall
  rcases hcall with (((hcall | hcall) | hcall) | hcall) | hcall
  all_goals obtain ⟨hpage, rfl⟩ := hone hcall
  · cases hparams
  · exact ⟨(Option.some.inj hparams).symm, webPageBan, by simp [actionPages], hpage⟩
  · exact ⟨(Option.some.inj hparams).symm, webPageKick, by simp [actionPages], hpage⟩
  · exact ⟨(Option.some.inj hparams).symm, webPageBanAll, by simp [actionPages], hpage⟩
  · cases hparams

theorem exists_mem_pageCallsOf {page : String} (hmem : page ∈ actionPages)
    (hpage : isText s page = true) :
    ∃ call ∈ pageCallsOf s, call.params = some (peerParamsOf s) := by
  simp only [actionPages, List.mem_cons, List.not_mem_nil, or_false] at hmem
  rcases hmem with rfl | rfl | rfl
  · exact ⟨.ban (peerParamsOf s), by simp [pageCallsOf, hpage], rfl⟩
  · exact ⟨.kick (peerParamsOf s), by simp [pageCallsOf, hpage], rfl⟩
  · exact ⟨.banAll (peerParamsOf s), by simp [pageCallsOf, hpage], rfl⟩

theorem mem_answer_of_mem {calls : List PageCall} (h : call ∈ calls) :
    call ∈ (answer calls redirection).1 := by
  unfold answer
  dsimp only
  split
  · exact List.mem_append_left _ h
  · exact h

/-- A line is harmless just if it asks for no page at all, or has at least five bytes and asks for
no action, or for one with both parameters. -/
theorem harmless_iff (line : List Char) (redirection : Bool) : Harmless line redirection ↔
    (startsWith line "GET " = true → 5 ≤ line.length ∧
      ((∃ page ∈ actionPages, firstWord (line.drop 5) = page.toList) →
        HasParam line textSrcIpParam ∧ HasParam line textSrcPortParam)) := by
  have hwords : ∀ page ∈ actionPages, IsPlain page.toList := by decide
  constructor
  · rintro ⟨calls, redirection', hline, hsafe⟩ hget
    have hlength : 5 ≤ line.length := by
      by_contra hshort
      rw [getLine_short hget (by omega)] at hline
      cases hline
    refine ⟨hlength, ?_⟩
    rintro ⟨page, hmem, hfirst⟩
    have hpage := (isText_cut (hwords page hmem) (line.drop 5)).mpr hfirst
    obtain ⟨call, hcall, hparams⟩ := exists_mem_pageCallsOf hmem hpage
    rw [getLine_eq hget hlength] at hline
    obtain rfl : (answer _ redirection).1 = calls := congrArg Prod.fst (Except.ok.inj hline)
    rw [← peerParamsOf_isSome_iff,
      ← (pointsInto_peerParamsOf (stands_cutLine hlength)).peer_iff]
    exact hsafe call (mem_answer_of_mem hcall) _ hparams
  · intro h
    cases hget : startsWith line "GET " with
    | false => exact ⟨[], redirection, getLine_other hget redirection, by simp⟩
    | true =>
        obtain ⟨hlength, hpages⟩ := h hget
        refine ⟨_, _, getLine_eq hget hlength redirection, ?_⟩
        intro call hcall q hparams
        obtain ⟨rfl, page, hmem, hpage⟩ :=
          params_of_mem_pageCallsOf (mem_answer hparams hcall) hparams
        rw [(pointsInto_peerParamsOf (stands_cutLine hlength)).peer_iff, peerParamsOf_isSome_iff]
        exact hpages ⟨page, hmem, (isText_cut (hwords page hmem) _).mp hpage⟩

/-- A client is to be kicked and none is given, and a line ends where its page should be. -/
theorem kick_without_client :
    getLine "GET /kick HTTP/1.1".toList true = .ok ([.kick ⟨none, none⟩], false) ∧
      ¬Harmless "GET /kick HTTP/1.1".toList true ∧
      getLine "GET ".toList true = .error .overread := by
  have hline : getLine "GET /kick HTTP/1.1".toList true = .ok ([.kick ⟨none, none⟩], false) := by
    decide +kernel
  refine ⟨hline, ?_, by decide +kernel⟩
  rintro ⟨calls, redirection', hcalls, hsafe⟩
  rw [hline] at hcalls
  obtain ⟨rfl, rfl⟩ := Prod.mk.inj (Except.ok.inj hcalls)
  obtain ⟨peer, hpeer⟩ := hsafe _ List.mem_cons_self _ rfl
  cases hpeer

end Relb
