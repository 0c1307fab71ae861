import Relb.Proofs.Requests
/-!
# Links

A link comes back as a request, in one line. Its words are cut apart, and each of them is read as
if it stood alone: every parser stops at the zero behind its word. The values are read back if
addresses and numbers are written in their canonical form.
-/

namespace Relb

open Lib

variable {texts : Texts} {r : ListRequest} {s t v w : List Char} {ws : List (List Char)} {i : Nat}
  {ip : IpAddress} {name m word : String}

/-! ## A zero ends every value -/

theorem atoi_nul (v t : List Char) : atoi (v ++ '\x00' :: t) = atoi v := by
  apply atoi_field rfl (by decide) (by decide)
  rw [List.dropWhile_append]
  split
  · rename_i hempty
    rw [List.isEmpty_iff.mp hempty, List.nil_append]
    exact List.dropWhile_cons_of_neg (by decide)
  · rfl

theorem octetsOf_nul (v t : List Char) (octets : List Int) :
    octetsOf (v ++ '\x00' :: t) octets = octetsOf v octets := by
  induction v generalizing octets with
  | nil => simp [octetsOf]
  | cons c v ih => rw [List.cons_append, octetsOf, octetsOf, atoi_nul, ih, ih]

theorem ipaddressOf_nul (v t : List Char) : ipaddressOf (v ++ '\x00' :: t) = ipaddressOf v := by
  unfold ipaddressOf
  rw [atoi_nul, octetsOf_nul]

theorem startsWith_nul (hname : '\x00' ∉ name.toList) (w t : List Char) :
    startsWith (w ++ '\x00' :: t) name = startsWith w name := isPrefixOf_field hname w t

theorem isText_nul (hword : '\x00' ∉ word.toList) (v t : List Char) :
    isText (v ++ '\x00' :: t) word = isText v word := by
  unfold isText
  rw [startsWith_nul hword]
  cases hprefix : startsWith v word with
  | false => rfl
  | true =>
      obtain ⟨rest, rfl⟩ := List.isPrefixOf_iff_prefix.mp hprefix
      rw [List.append_assoc, List.drop_left, List.drop_left]
      cases rest <;> rfl

theorem onParamOf_nul {σ : Type} (hname : '\x00' ∉ name.toList) (w t : List Char)
    (f : List Char → σ) (st : σ) :
    onParamOf (w ++ '\x00' :: t) name f st =
      onParamOf w name (fun v => f (v ++ '\x00' :: t)) st := by
  unfold onParamOf afterTag
  rw [startsWith_nul hname]
  cases hprefix : startsWith w name with
  | false => rfl
  | true =>
      obtain ⟨rest, rfl⟩ := List.isPrefixOf_iff_prefix.mp hprefix
      rw [if_pos rfl, if_pos rfl, List.append_assoc, List.drop_left, List.drop_left]

theorem sortByOf_nul (v t : List Char) (r : ListRequest) :
    sortByOf (v ++ '\x00' :: t) r = sortByOf v r := by
  unfold sortByOf onKeyOf
  rw [isText_nul (by decide), isText_nul (by decide), isText_nul (by decide),
    isText_nul (by decide), isText_nul (by decide), atoi_nul]

theorem listParamOf_nul (w t : List Char) (r : ListRequest) :
    listParamOf (w ++ '\x00' :: t) r = listParamOf w r := by
  unfold listParamOf
  rw [onParamOf_nul (by decide), onParamOf_nul (by decide), onParamOf_nul (by decide),
    onParamOf_nul (by decide), onParamOf_nul (by decide), onParamOf_nul (by decide),
    onParamOf_nul (by decide)]
  simp only [ipaddressOf_nul, atoi_nul, sortByOf_nul]

/-! ## Words -/

/-- The words of a text, each behind a zero. -/
def behindNuls (ws : List (List Char)) : List Char := ws.flatMap ('\x00' :: ·)

theorem behindNuls_cons (w : List Char) (ws : List (List Char)) :
    behindNuls (w :: ws) = '\x00' :: (w ++ behindNuls ws) := rfl

theorem behindNuls_append (ws ws' : List (List Char)) :
    behindNuls (ws ++ ws') = behindNuls ws ++ behindNuls ws' := List.flatMap_append

theorem sweep_word {σ : Type} {g : Nat → List Char → σ → σ} (hw : '\x00' ∉ w) (i : Nat)
    (t : List Char) (st : σ) :
    sweep (behindNul g) i (w ++ t) st = sweep (behindNul g) (i + w.length) t st := by
  apply sweep_append
  intro c hc i s st
  have hother : c ≠ '\x00' := fun h => hw (h ▸ hc)
  rw [behindNul, if_neg hother]

theorem sweep_listParamOf (hws : ∀ w ∈ ws, '\x00' ∉ w) (i : Nat) (r : ListRequest) :
    sweep (behindNul fun _ => listParamOf) i (behindNuls ws) r =
      ws.foldl (fun r w => listParamOf w r) r := by
  induction ws generalizing i r with
  | nil => rfl
  | cons w ws ih =>
      rw [List.forall_mem_cons] at hws
      have hread : listParamOf (w ++ behindNuls ws) r = listParamOf w r := by
        cases ws with
        | nil => rw [behindNuls, List.flatMap_nil, List.append_nil]
        | cons w' ws => exact listParamOf_nul w _ r
      rw [behindNuls_cons, sweep, behindNul, if_pos rfl, sweep_word hws.1, ih hws.2, hread,
        List.foldl_cons]

theorem listRequestOf_words {page : List Char} (hpage : '\x00' ∉ page)
    (hws : ∀ w ∈ ws, '\x00' ∉ w) : listRequestOf (page ++ behindNuls ws) =
      ws.foldl (fun r w => listParamOf w r) ⟨ipnone, ipnone, 0, 0, 0, 1, true⟩ := by
  unfold listRequestOf
  rw [sweep_word hpage, sweep_listParamOf hws]

/-! ## Parameters -/

theorem onParamOf_self {σ : Type} (name : String) (v : List Char) (f : List Char → σ) (st : σ) :
    onParamOf (name.toList ++ v) name f st = f v := by
  unfold onParamOf
  rw [afterTag_self]

theorem onParamOf_other {σ : Type} (hname : name.toList.isPrefixOf m.toList = false)
    (hm : m.toList.isPrefixOf name.toList = false) (v : List Char) (f : List Char → σ) (st : σ) :
    onParamOf (m.toList ++ v) name f st = st := by
  have hnone : startsWith (m.toList ++ v) name = false := by
    rw [← Bool.not_eq_true]
    intro hprefix
    rcases List.prefix_or_prefix_of_prefix (List.isPrefixOf_iff_prefix.mp hprefix)
      (List.prefix_append m.toList v) with hle | hle
    · rw [List.isPrefixOf_iff_prefix.mpr hle] at hname
      cases hname
    · rw [List.isPrefixOf_iff_prefix.mpr hle] at hm
      cases hm
  unfold onParamOf afterTag
  rw [hnone]
  rfl

/-! ## Values -/

/-- Addresses are dotted quads, and numbers have no leading zeros. -/
structure Texts.Canonical (texts : Texts) : Prop where
  iptostring : ∀ ip, texts.iptostring ip = ip.text
  itostring : ∀ n, texts.itostring n = decimal n

theorem octetsOf_digits {digits : List Char} (hdigits : ∀ c ∈ digits, c.isDigit = true)
    {octets : List Int} (hmore : octets.length < 4) (t : List Char) :
    octetsOf (digits ++ t) octets = octetsOf t octets := by
  induction digits with
  | nil => rfl
  | cons c digits ih =>
      rw [List.forall_mem_cons] at hdigits
      have hnul : c ≠ '\x00' := ne_of_isDigit hdigits.1 rfl
      have hdot : c ≠ '.' := ne_of_isDigit hdigits.1 rfl
      rw [List.cons_append, octetsOf, if_neg (by simp [hnul, hmore]), if_neg hdot, ih hdigits.2]

theorem octetsOf_decimal (n : Nat) {octets : List Int} (hmore : octets.length < 4)
    (t : List Char) :
    octetsOf (decimal n ++ '.' :: t) octets = octetsOf t (octets ++ [atoi t]) := by
  rw [octetsOf_digits (fun _ hc => isDigit_of_mem_decimal hc) hmore, octetsOf,
    if_neg (by simp [hmore]), if_pos rfl]

theorem octetsOf_full {octets : List Int} (hfull : 4 ≤ octets.length) (t : List Char) :
    octetsOf t octets = octets := by
  cases t with
  | nil => rfl
  | cons c t => rw [octetsOf, if_pos (.inr hfull)]

theorem ofInt_octet (octet : UInt8) : UInt8.ofInt octet.toNat = octet := by
  have hlt := octet.toNat_lt
  apply UInt8.toNat_inj.mp
  unfold UInt8.ofInt
  rw [UInt8.toNat_ofNat']
  omega

/-- A dotted quad is read back. -/
theorem ipaddressOf_text (ip : IpAddress) : ipaddressOf ip.text = ip := by
  have hoctet : ∀ (octet : UInt8) {rest : List Char}, EndsNumber rest →
      atoi (decimal octet.toNat ++ rest) = octet.toNat := fun octet _ hrest =>
    atoi_decimal (octet.toNat_lt.trans (by decide)) hrest
  have hlast : ∀ octet : UInt8, atoi (decimal octet.toNat) = octet.toNat := by
    intro octet
    simpa using hoctet octet endsNumber_nil
  have hdot : ∀ (octet : UInt8) (rest : List Char),
      atoi (decimal octet.toNat ++ '.' :: rest) = octet.toNat := fun octet rest =>
    hoctet octet (endsNumber_cons rfl)
  have hocts : octetsOf ip.text [atoi ip.text] =
      [(ip.data0.toNat : Int), ip.data1.toNat, ip.data2.toNat, ip.data3.toNat] := by
    calc
      octetsOf ip.text [atoi ip.text]
      _ = octetsOf (decimal ip.data1.toNat ++ '.' :: (decimal ip.data2.toNat ++ '.' ::
            decimal ip.data3.toNat)) [(ip.data0.toNat : Int), ip.data1.toNat] := by
          unfold IpAddress.text
          rw [hdot, octetsOf_decimal _ (by simp), hdot]
          rfl
      _ = octetsOf (decimal ip.data2.toNat ++ '.' :: decimal ip.data3.toNat)
            [(ip.data0.toNat : Int), ip.data1.toNat, ip.data2.toNat] := by
          rw [octetsOf_decimal _ (by simp), hdot]
          rfl
      _ = octetsOf (decimal ip.data3.toNat)
            [(ip.data0.toNat : Int), ip.data1.toNat, ip.data2.toNat, ip.data3.toNat] := by
          rw [octetsOf_decimal _ (by simp), hlast]
          rfl
      _ = _ := octetsOf_full (by simp) _
  unfold ipaddressOf
  dsimp only
  rw [hocts]
  change IpAddress.mk (UInt8.ofInt ip.data0.toNat) (UInt8.ofInt ip.data1.toNat)
    (UInt8.ofInt ip.data2.toNat) (UInt8.ofInt ip.data3.toNat) = ip
  rw [ofInt_octet, ofInt_octet, ofInt_octet, ofInt_octet]

/-! ## Cut words -/

theorem IsPlain.map_cutChar {w : List Char} (hw : IsPlain w) : w.map cutChar = w := by
  rw [List.map_congr_left fun c hc => cutChar_of_not_separator (hw c hc), List.map_id']

theorem IsPlain.not_mem_nul {w : List Char} (hw : IsPlain w) : '\x00' ∉ w := by
  intro hmem
  cases hw _ hmem

theorem IsPlain.append {w w' : List Char} (hw : IsPlain w) (hw' : IsPlain w') :
    IsPlain (w ++ w') := by
  intro c hc
  rcases List.mem_append.mp hc with hc | hc
  · exact hw c hc
  · exact hw' c hc

theorem isSeparator_of_isDigit {c : Char} (hc : c.isDigit = true) : isSeparator c = false := by
  unfold isSeparator
  simp [ne_of_isDigit hc (d := ' ') rfl, ne_of_isDigit hc (d := '&') rfl,
    ne_of_isDigit hc (d := '?') rfl, ne_of_isDigit hc (d := '\x00') rfl]

theorem isPlain_decimal (n : Nat) : IsPlain (decimal n) := fun _ hc =>
  isSeparator_of_isDigit (isDigit_of_mem_decimal hc)

theorem isPlain_text (ip : IpAddress) : IsPlain ip.text := by
  intro c hc
  rcases IpAddress.mem_text hc with hdigit | rfl
  · exact isSeparator_of_isDigit hdigit
  · rfl

theorem cut_words {ws : List (List Char)} (hws : ∀ w ∈ ws, IsPlain w) {a : Char}
    (ha : isSeparator a = true) (last : List Char) :
    (a :: (ws.flatMap (· ++ ['&']) ++ last)).map cutChar =
      behindNuls ws ++ '\x00' :: last.map cutChar := by
  induction ws generalizing a with
  | nil => rw [List.map_cons, cutChar_eq_nul.mpr ha]; rfl
  | cons w ws ih =>
      rw [List.forall_mem_cons] at hws
      have hrest := ih hws.2 (a := '&') rfl
      rw [List.flatMap_cons, List.append_assoc, List.append_assoc, List.map_cons,
        cutChar_eq_nul.mpr ha, List.map_append, hws.1.map_cutChar, List.singleton_append, hrest,
        behindNuls_cons, List.cons_append, List.append_assoc]

/-! ## Request lines -/

def requestLine (link : List Char) : List Char :=
  "GET /".toList ++ link ++ " HTTP/1.1".toList

theorem drop_requestLine (link : List Char) :
    (requestLine link).drop 5 = link ++ " HTTP/1.1".toList := by
  unfold requestLine
  rw [List.append_assoc]
  exact List.drop_left' rfl

theorem length_requestLine (link : List Char) : 5 ≤ (requestLine link).length := by
  unfold requestLine
  rw [List.append_assoc, List.length_append]
  exact Nat.le_add_right 5 _

theorem stands_requestLine (link : List Char) :
    Stands (cutLine (requestLine link)) 5 ((link ++ " HTTP/1.1".toList).map cutChar) := by
  rw [← drop_requestLine]
  exact stands_cutLine (length_requestLine link)

theorem getLine_requestLine (link : List Char) (redirection : Bool) :
    getLine (requestLine link) redirection =
      .ok (answer (pageCallsOf ((link ++ " HTTP/1.1".toList).map cutChar)) redirection) := by
  rw [← drop_requestLine]
  exact getLine_eq rfl (length_requestLine link) redirection

theorem isText_page {page other : String} (hother : '\x00' ∉ other.toList)
    (w : List Char) (ws : List (List Char)) :
    isText (page.toList ++ behindNuls (w :: ws)) other = isText page.toList other :=
  isText_nul hother _ _

theorem answer_singleton (call : PageCall) (redirection : Bool) :
    answer [call] redirection = ([call], false) := by
  cases redirection <;> rfl

def canonicalTexts : Texts := ⟨IpAddress.text, decimal, fun _ => []⟩

theorem canonicalTexts_canonical : canonicalTexts.Canonical := ⟨fun _ => rfl, fun _ => rfl⟩

end Relb
