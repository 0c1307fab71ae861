import Relb.Model.AdminPages
import Relb.Proofs.ConfigText
/-!
# Requests of the web admin

A request line is cut at its separators, and then every parser stays in front of the next zero. What
the parsers read is what is left of the line at their index, so that a line does what its words say.
The page is compared with the word behind index 5, which is only there if the line has a fifth
byte; and an action gets the pointers that the line has, one or both of which may be `NULL`.
-/

namespace Relb

open Lib

open ConfigText (charAt_eq startsWith_eq atoi_eq)

variable {line s t : List Char} {h i : Nat} {r : ListRequest} {q : PeerParams} {word name : String}

/-! ## Words -/

/-- The text reads as `word` up to its first zero. -/
def isText (s : List Char) (word : String) : Bool :=
  startsWith s word && isNul (s.drop word.toList.length).head?

theorem equalsAt_eq (hs : Stands line h s) (word : String) :
    equalsAt line h word = .ok (isText s word) := by
  unfold equalsAt isText
  rw [startsWith_eq hs, ok_bind]
  cases hword : startsWith s word with
  | false => rfl
  | true =>
      obtain ⟨rest, rfl⟩ := List.isPrefixOf_iff_prefix.mp hword
      rw [if_pos rfl, charAt_eq hs.append, List.drop_left]
      rfl

/-- The octets behind the dots, up to the fourth. -/
def octetsOf : List Char → List Int → List Int
  | [], octets => octets
  | c :: s, octets =>
      if c = '\x00' ∨ 4 ≤ octets.length then octets
      else if c = '.' then octetsOf s (octets ++ [atoi s])
      else octetsOf s octets

theorem octetsFrom_eq (hs : Stands line h s) {fuel : Nat} (hfuel : s.length < fuel)
    (octets : List Int) : octetsFrom line fuel h octets = .ok (octetsOf s octets) := by
  induction fuel generalizing s h octets with
  | zero => omega
  | succ fuel ih =>
      rw [octetsFrom, charAt_eq hs, ok_bind]
      cases s with
      | nil => rfl
      | cons c s =>
          have hnul : isNul (some c) = true ↔ c = '\x00' := by simp [isNul]
          have hfuel' : s.length < fuel := Nat.lt_of_succ_lt_succ hfuel
          rw [octetsOf, List.head?_cons]
          simp only [hnul, Option.some.injEq]
          split
          · rfl
          · split
            · rw [atoi_eq hs.next, ok_bind, ih hs.next hfuel']
            · exact ih hs.next hfuel' octets

def ipaddressOf (s : List Char) : IpAddress :=
  let i := fun t => UInt8.ofInt ((octetsOf s [atoi s]).getD t 0)
  ⟨i 0, i 1, i 2, i 3⟩

theorem charToIpaddress_eq (hs : Stands line h s) :
    charToIpaddress line h = .ok (ipaddressOf s) := by
  have hlength := hs.length_eq
  unfold charToIpaddress
  rw [atoi_eq hs, ok_bind, octetsFrom_eq hs (by omega)]
  rfl

theorem peerAt_eq (hs : Stands line h s) (ht : Stands line i t) :
    peerAt line h i = .ok (ipaddressOf s, UInt16.ofInt (atoi t)) := by
  unfold peerAt
  rw [charToIpaddress_eq hs, ok_bind, atoi_eq ht]
  rfl

/-! ## Parameters -/

/-- What a parameter does to `st`, if it stands in front of `s`. -/
def onParamOf {σ : Type} (s : List Char) (name : String) (f : List Char → σ) (st : σ) : σ :=
  match afterTag name s with
  | some v => f v
  | none => st

theorem onParam_eq {σ : Type} {f : Nat → Except Fault σ} {g : List Char → σ}
    (hf : ∀ {v t}, Stands line v t → f v = .ok (g t)) (hs : Stands line h s) (name : String)
    (st : σ) : onParam line h name f st = .ok (onParamOf s name g st) := by
  unfold onParam onParamOf afterTag
  rw [startsWith_eq hs, ok_bind]
  cases hname : startsWith s name with
  | false => rfl
  | true =>
      obtain ⟨rest, rfl⟩ := List.isPrefixOf_iff_prefix.mp hname
      rw [if_pos rfl, if_pos rfl, List.drop_left]
      exact hf hs.append

section OnParam

variable {σ : Type} (hs : Stands line h s) (name : String)

include hs

theorem onParam_ipaddress (f : IpAddress → σ) (st : σ) :
    onParam line h name (fun v => do return f (← charToIpaddress line v)) st =
      .ok (onParamOf s name (fun t => f (ipaddressOf t)) st) := by
  apply onParam_eq
  · intro v t hv
    rw [charToIpaddress_eq hv]
    rfl
  · exact hs

theorem onParam_atoi (f : Int → σ) (st : σ) :
    onParam line h name (fun v => do return f (← ConfigText.atoi line v)) st =
      .ok (onParamOf s name (fun t => f (atoi t)) st) := by
  apply onParam_eq
  · intro v t hv
    rw [atoi_eq hv]
    rfl
  · exact hs

theorem onParam_pure (f : Nat → σ) (st : σ) :
    onParam line h name (fun v => return f v) st =
      .ok (onParamOf s name (fun _ => f (h + name.toList.length)) st) := by
  unfold onParam onParamOf afterTag
  rw [startsWith_eq hs, ok_bind]
  cases startsWith s name <;> rfl

end OnParam

def onKeyOf (s : List Char) (text : String) (sortBy : Int) (r : ListRequest) : ListRequest :=
  if isText s text then { r with sortBy := sortBy } else r

theorem onKey_eq (hs : Stands line h s) (text : String) (sortBy : Int) (r : ListRequest) :
    onKey line h text sortBy r = .ok (onKeyOf s text sortBy r) := by
  unfold onKey onKeyOf
  rw [equalsAt_eq hs, ok_bind]
  cases isText s text <;> rfl

def sortByOf (s : List Char) (r : ListRequest) : ListRequest :=
  let r := onKeyOf s textSortBySrcIp sortBySrcIp r
  let r := onKeyOf s textSortByDstIp sortByDstIp r
  let r := onKeyOf s textSortByStatus sortByStatus r
  let r := onKeyOf s textSortByModified sortByModified r
  let r := onKeyOf s textSortByCreation sortByCreation r
  if atoi s > 0 then { r with sortBy := atoi s } else r

theorem sortByParam_eq (hs : Stands line h s) (r : ListRequest) :
    sortByParam line r h = .ok (sortByOf s r) := by
  unfold sortByParam
  rw [onKey_eq hs, ok_bind, onKey_eq hs, ok_bind, onKey_eq hs, ok_bind, onKey_eq hs, ok_bind,
    onKey_eq hs, ok_bind, atoi_eq hs]
  rfl

/-- What stands in a line for `list` at one place. -/
def listParamOf (s : List Char) (r : ListRequest) : ListRequest :=
  let r := onParamOf s textSrcIpParam (fun v => { r with srcFilter := ipaddressOf v }) r
  let r := onParamOf s textSrcPortParam (fun v => { r with srcPort := UInt16.ofInt (atoi v) }) r
  let r := onParamOf s textDstIpParam (fun v => { r with dstFilter := ipaddressOf v }) r
  let r := onParamOf s textDstPortParam (fun v => { r with dstPort := UInt16.ofInt (atoi v) }) r
  let r := onParamOf s textStatusParam (fun v => { r with statusFilter := atoi v }) r
  let r := onParamOf s textSortByParam (fun v => sortByOf v r) r
  onParamOf s textSortAscParam (fun _ => { r with ascending := false }) r

theorem listParam_eq (hs : Stands line h s) (r : ListRequest) :
    listParam line h r = .ok (listParamOf s r) := by
  unfold listParam listParamOf
  dsimp only
  rw [onParam_ipaddress hs, ok_bind, onParam_atoi hs, ok_bind, onParam_ipaddress hs, ok_bind,
    onParam_atoi hs, ok_bind, onParam_atoi hs, ok_bind,
    onParam_eq (g := fun v => sortByOf v _) (fun hv => sortByParam_eq hv _) hs, ok_bind,
    onParam_pure hs]

/-- What stands in a line for an action at `h`. -/
def peerParamOf (h : Nat) (s : List Char) (q : PeerParams) : PeerParams :=
  let q := onParamOf s textSrcIpParam
    (fun _ => { q with srcIp := some (h + textSrcIpParam.toList.length) }) q
  onParamOf s textSrcPortParam
    (fun _ => { q with srcPort := some (h + textSrcPortParam.toList.length) }) q

theorem peerParam_eq (hs : Stands line h s) (q : PeerParams) :
    peerParam line h q = .ok (peerParamOf h s q) := by
  have hip := onParam_pure hs textSrcIpParam (fun v => { q with srcIp := some v }) q
  unfold peerParam
  rw [hip, ok_bind]
  exact onParam_pure hs textSrcPortParam (fun v => PeerParams.mk _ (some v)) _

/-! ## Sweeps -/

/-- `g` is done behind every zero. -/
def behindNul {σ : Type} (g : Nat → List Char → σ → σ) (i : Nat) (s : List Char) (st : σ) : σ :=
  match s with
  | [] => st
  | c :: s => if c = '\x00' then g (i + 1) s st else st

theorem eachParam_eq {σ : Type} {f : Nat → σ → Except Fault σ} {g : Nat → List Char → σ → σ}
    (hf : ∀ {h s} st, Stands line h s → f h st = .ok (g h s st)) (hs : Stands line 5 s) (st : σ) :
    eachParam line f st = .ok (sweep (behindNul g) 5 s st) := by
  have hlength := hs.length_eq
  have hcount : line.length - 5 = s.length := by omega
  unfold eachParam
  rw [hcount]
  apply Stands.foldlM_range' _ hs
  intro i c s st hs
  have hnul : isNul (some c) = true ↔ c = '\x00' := by simp [isNul]
  unfold behindNul
  rw [charAt_eq hs, ok_bind, List.head?_cons]
  simp only [hnul]
  split
  · exact hf st hs.next
  · rfl

/-- The arguments of `list`, and the pointers of an action, from the text at index 5. -/
def listRequestOf (s : List Char) : ListRequest :=
  sweep (behindNul fun _ => listParamOf) 5 s ⟨ipnone, ipnone, 0, 0, 0, 1, true⟩

def peerParamsOf (s : List Char) : PeerParams := sweep (behindNul peerParamOf) 5 s ⟨none, none⟩

/-- The calls of a cut line. -/
def pageCallsOf (s : List Char) : List PageCall :=
  (if isText s webPageList then [.list (listRequestOf s)] else []) ++
    (if isText s webPageBan then [.ban (peerParamsOf s)] else []) ++
    (if isText s webPageKick then [.kick (peerParamsOf s)] else []) ++
    (if isText s webPageBanAll then [.banAll (peerParamsOf s)] else []) ++
    (if isText s webPageServers then [.servers] else [])

theorem pageCall_eq {α : Type} {params : Except Fault α} {a : α} (hs : Stands line 5 s)
    (hparams : params = .ok a) (page : String) (call : α → PageCall) :
    pageCall line page params call = .ok (if isText s page then [call a] else []) := by
  unfold pageCall
  rw [equalsAt_eq hs, ok_bind, hparams]
  cases isText s page <;> rfl

theorem pageCalls_eq (hs : Stands line 5 s) : pageCalls line = .ok (pageCallsOf s) := by
  have hlist := eachParam_eq (g := fun _ => listParamOf) (fun st hs => listParam_eq hs st) hs
    ⟨ipnone, ipnone, 0, 0, 0, 1, true⟩
  have hpeer := eachParam_eq (fun st hs => peerParam_eq hs st) hs ⟨none, none⟩
  unfold pageCalls
  dsimp only
  rw [pageCall_eq hs hlist, ok_bind, pageCall_eq hs hpeer, ok_bind, pageCall_eq hs hpeer, ok_bind,
    pageCall_eq hs hpeer, ok_bind, pageCall_eq hs rfl]
  rfl

/-! ## Cut lines -/

/-- What ends a word of a request: the separators that are cut, and a zero that came with the
line. -/
def isSeparator (c : Char) : Bool := c == ' ' || c == '&' || c == '?' || c == '\x00'

def cutChar (c : Char) : Char := if c = ' ' ∨ c = '&' ∨ c = '?' then '\x00' else c

theorem cutChar_eq_nul {c : Char} : cutChar c = '\x00' ↔ isSeparator c = true := by
  unfold cutChar isSeparator
  split
  · rename_i hcut
    rcases hcut with rfl | rfl | rfl <;> simp
  · rename_i hkept
    push Not at hkept
    simp [hkept]

theorem cutChar_of_not_separator {c : Char} (hc : isSeparator c = false) : cutChar c = c := by
  unfold cutChar
  apply if_neg
  rintro (rfl | rfl | rfl) <;> cases hc

theorem eq_cutChar_iff {c d : Char} (hd : isSeparator d = false) : d = cutChar c ↔ d = c := by
  constructor
  · rintro rfl
    by_cases hc : isSeparator c = true
    · rw [cutChar_eq_nul.mpr hc] at hd
      cases hd
    · apply cutChar_of_not_separator
      rwa [Bool.not_eq_true] at hc
  · rintro rfl
    exact (cutChar_of_not_separator hd).symm

def IsPlain (w : List Char) : Prop := ∀ c ∈ w, isSeparator c = false

instance : DecidablePred IsPlain := fun w =>
  List.decidableBAll (isSeparator · = false) w

theorem startsWith_cut (hword : IsPlain word.toList) (t : List Char) :
    startsWith (t.map cutChar) word = startsWith t word := by
  unfold startsWith IsPlain at *
  generalize word.toList = w at *
  induction w generalizing t with
  | nil => simp
  | cons d w ih =>
      rw [List.forall_mem_cons] at hword
      cases t with
      | nil => rfl
      | cons c t =>
          have hsame : (d == cutChar c) = (d == c) := by
            rw [Bool.eq_iff_iff, beq_iff_eq, beq_iff_eq]
            exact eq_cutChar_iff hword.1
          rw [List.map_cons, List.isPrefixOf_cons_cons, List.isPrefixOf_cons_cons, hsame,
            ih _ hword.2]

def firstWord (t : List Char) : List Char := t.takeWhile (!isSeparator ·)

theorem isText_cut (hword : IsPlain word.toList) (t : List Char) :
    isText (t.map cutChar) word = true ↔ firstWord t = word.toList := by
  unfold isText
  rw [Bool.and_eq_true, startsWith_cut hword]
  constructor
  · rintro ⟨hstarts, hend⟩
    obtain ⟨rest, rfl⟩ := List.isPrefixOf_iff_prefix.mp hstarts
    rw [List.map_append, List.drop_left' (List.length_map _)] at hend
    cases rest with
    | nil =>
        rw [List.append_nil]
        exact takeWhile_lastField hword
    | cons c rest =>
        apply takeWhile_field hword
        rw [← cutChar_eq_nul]
        simpa [isNul] using hend
  · intro hfirst
    have hsplit := List.takeWhile_append_dropWhile (p := (!isSeparator ·)) (l := t)
    have hnext := List.head?_dropWhile_not (!isSeparator ·) t
    rw [show t.takeWhile (!isSeparator ·) = word.toList from hfirst] at hsplit
    refine ⟨List.isPrefixOf_iff_prefix.mpr ⟨_, hsplit⟩, ?_⟩
    rw [← hsplit, List.map_append, List.drop_left' (List.length_map _)]
    cases hrest : t.dropWhile (!isSeparator ·) with
    | nil => rfl
    | cons c rest =>
        rw [hrest] at hnext
        have hc : cutChar c = '\x00' := cutChar_eq_nul.mpr (by simpa using hnext)
        simp [isNul, hc]

/-! ## Lines -/

theorem cutLine_eq (line : List Char) :
    cutLine line = line.take 5 ++ (line.drop 5).map cutChar := rfl

theorem stands_cutLine (hlength : 5 ≤ line.length) :
    Stands (cutLine line) 5 ((line.drop 5).map cutChar) :=
  ⟨line.take 5, cutLine_eq line, (List.length_take_of_le hlength).symm⟩

/-- The calls of a line, and a redirection if there are none. -/
def answer (calls : List PageCall) (redirection : Bool) : List PageCall × Bool :=
  let redirection := redirection && calls.isEmpty
  (if redirection then calls ++ [.redirect] else calls, redirection)

theorem getLine_eq (hget : startsWith line "GET " = true) (hlength : 5 ≤ line.length)
    (redirection : Bool) : getLine line redirection =
      .ok (answer (pageCallsOf ((line.drop 5).map cutChar)) redirection) := by
  unfold getLine
  rw [startsWith_eq (.zero line), ok_bind, hget, if_pos rfl, pageCalls_eq (stands_cutLine hlength)]
  rfl

theorem getLine_other (hget : startsWith line "GET " = false) (redirection : Bool) :
    getLine line redirection = .ok ([], redirection) := by
  unfold getLine
  rw [startsWith_eq (.zero line), ok_bind, hget]
  rfl

theorem getLine_short (hget : startsWith line "GET " = true) (hlength : line.length < 5)
    (redirection : Bool) : getLine line redirection = .error .overread := by
  have hcut : cutLine line = line := by
    rw [cutLine_eq, List.take_of_length_le (by omega), List.drop_eq_nil_of_le (by omega)]
    exact List.append_nil line
  have hread : readAt Fault.overread line 5 = .error .overread := if_neg (by omega)
  have hword : ConfigText.startsWith line 5 webPageList = .error .overread := by
    change matchAt Fault.overread line ['l', 'i', 's', 't'] 5 = _
    rw [matchAt, hread]
  unfold getLine
  rw [startsWith_eq (.zero line), ok_bind, hget, if_pos rfl, hcut]
  unfold pageCalls pageCall equalsAt
  rw [hword]
  rfl

end Relb
