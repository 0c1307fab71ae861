import Relb.Proofs.ConfigFields
import Relb.Proofs.Masks
/-!
# Filters in a line

A filter is cut into four fields and what stands behind them. Written with one separator behind each
field it is read back, whatever the form of its masks. With any other spacing the action is read at
a place where it does not stand, and any action but `deny` allows.
-/

namespace Relb

open Lib

open ConfigLine.Sample (quadEnv oneBind phostbyname_text)

variable {env : Env} {c : AppConfig} {s t : List Char}

/-! ## Cutting -/

theorem filterOf_cut {src srcMask dst dstMask action r₁ r₂ r₃ : List Char}
    (hskip : skipBlanks s = t) (hsrc : Cut isFilterEnd t src r₁)
    (hsrcMask : Cut isFilterEnd r₁ srcMask r₂) (hdst : Cut isFilterEnd r₂ dst r₃)
    (hdstMask : Cut isBlank r₃ dstMask action) :
    filterOf env s =
      if env.phostbyname src ≠ ipnone ∧ env.phostbyname dst ≠ ipnone then
        some ⟨env.phostbyname src, maskOf env srcMask r₁, env.phostbyname dst,
          maskOf env dstMask r₃, !startsWith action "deny"⟩
      else none := by
  unfold filterOf
  dsimp only
  rw [hskip, hsrc.takeWhile_eq, hsrc.drop_dropWhile_eq, hsrcMask.takeWhile_eq,
    hsrcMask.drop_dropWhile_eq, hdst.takeWhile_eq, hdst.drop_dropWhile_eq, hdstMask.takeWhile_eq,
    hdstMask.drop_dropWhile_eq]

/-! ## Masks -/

inductive MaskText
  | prefixLength (n : Nat) (hn : n ≤ 32)
  | quad (ip : IpAddress)

namespace MaskText

def text : MaskText → List Char
  | prefixLength n _ => decimal n
  | quad ip => ip.text

/-- A prefix length stands for as many leading ones. -/
def Denotes : MaskText → IpAddress → Prop
  | prefixLength n _, mask => mask.HasLeadingOnes n
  | quad ip, mask => mask = ip

theorem mem_text {m : MaskText} {c : Char} (h : c ∈ m.text) : c.isDigit = true ∨ c = '.' := by
  cases m with
  | prefixLength n hn => exact .inl (isDigit_of_mem_decimal h)
  | quad ip => exact IpAddress.mem_text h

theorem denotes_maskOf (hphost : ∀ ip : IpAddress, env.phostbyname ip.text = ip) (m : MaskText)
    (hrest : EndsNumber s) : m.Denotes (maskOf env m.text (m.text ++ s)) := by
  cases m with
  | prefixLength n hn =>
      have hshort : ¬2 < (decimal n).length := Nat.not_lt.mpr (length_decimal_le (by omega))
      have hmask : maskOf env (decimal n) (decimal n ++ s) = prefixMask n := by
        rw [maskOf, if_neg hshort, atoi_decimal (by omega) hrest]
      exact hmask ▸ hasLeadingOnes_prefixMask hn
  | quad ip =>
      change maskOf env ip.text (ip.text ++ s) = ip
      rw [maskOf, if_pos ip.two_lt_length_text, hphost]

end MaskText

/-! ## Round trip -/

/-- The fields of a filter with single separators. -/
def filterFields (srcIp : IpAddress) (srcMask : MaskText) (dstIp : IpAddress) (dstMask : MaskText)
    (allow : Bool) : List Char :=
  [' '] ++ (srcIp.text ++ '/' :: (srcMask.text ++ ' ' :: (dstIp.text ++ '/' :: (dstMask.text ++
    ' ' :: (if allow then "allow" else "deny").toList))))

theorem ends_of_quad {x : Char} (h : x.isDigit = true ∨ x = '.') :
    isFilterEnd x = false ∧ isBlank x = false := by
  have hne : ∀ y ∈ ['/', ' ', '\t'], x ≠ y := by
    rintro y hy rfl
    simp only [List.mem_cons, List.not_mem_nil, or_false] at hy
    rcases hy with rfl | rfl | rfl <;> rcases h with h | h <;> cases h
  simp [isFilterEnd, isBlank, hne]

theorem filterOf_filterFields (hphost : ∀ ip : IpAddress, env.phostbyname ip.text = ip)
    {srcIp dstIp : IpAddress} (hsrcIp : srcIp ≠ ipnone) (hdstIp : dstIp ≠ ipnone)
    (srcMask dstMask : MaskText) (allow : Bool) :
    ∃ srcMaskIp dstMaskIp, srcMask.Denotes srcMaskIp ∧ dstMask.Denotes dstMaskIp ∧
      filterOf env (filterFields srcIp srcMask dstIp dstMask allow) =
        some ⟨srcIp, srcMaskIp, dstIp, dstMaskIp, allow⟩ := by
  have hquad : ∀ {ip : IpAddress}, ∀ x ∈ ip.text, isFilterEnd x = false ∧ isBlank x = false :=
    fun x hx => ends_of_quad (IpAddress.mem_text hx)
  have hmask : ∀ {m : MaskText}, ∀ x ∈ m.text, isFilterEnd x = false ∧ isBlank x = false :=
    fun x hx => ends_of_quad (MaskText.mem_text hx)
  have hmaskOf : ∀ (m : MaskText) (rest : List Char),
      m.Denotes (maskOf env m.text (m.text ++ ' ' :: rest)) :=
    fun m rest => m.denotes_maskOf hphost (endsNumber_cons rfl)
  have hhead : ∀ rest : List Char, ∀ x ∈ (srcIp.text ++ rest).head?, isBlank x = false := by
    intro rest x hx
    have hlength := srcIp.two_lt_length_text
    have hne : srcIp.text ≠ [] := List.ne_nil_of_length_pos (by omega)
    rw [List.head?_append_of_ne_nil _ hne] at hx
    exact (hquad x (List.mem_of_head? hx)).2
  have hfilter : filterOf env (filterFields srcIp srcMask dstIp dstMask allow) = _ := filterOf_cut
    (skipBlanks_append (by simp [isBlank]) (hhead _)) (.ended (fun x hx => (hquad x hx).1) rfl)
    (.ended (fun x hx => (hmask x hx).1) rfl) (.ended (fun x hx => (hquad x hx).1) rfl)
    (.ended (fun x hx => (hmask x hx).2) rfl)
  have hallow : (!startsWith (if allow then "allow" else "deny").toList "deny") = allow := by
    cases allow <;> rfl
  rw [hphost, hphost, if_pos ⟨hsrcIp, hdstIp⟩, hallow] at hfilter
  exact ⟨_, _, hmaskOf srcMask _, hmaskOf dstMask _, hfilter⟩

namespace AppConfig

/-- A filter is read as it is written, by the last bind. -/
theorem filter_round_trip (hphost : ∀ ip : IpAddress, env.phostbyname ip.text = ip)
    {before : List BindConf} {b : BindConf} (hbind : c.bind = before ++ [b]) (clock : Clock)
    {srcIp dstIp : IpAddress} (hsrcIp : srcIp ≠ ipnone) (hdstIp : dstIp ≠ ipnone)
    (srcMask dstMask : MaskText) (allow : Bool) :
    ∃ srcMaskIp dstMaskIp, srcMask.Denotes srcMaskIp ∧ dstMask.Denotes dstMaskIp ∧
      c.processConfigLine env
          ⟨"filter:".toList ++ filterFields srcIp srcMask dstIp dstMask allow, clock⟩ =
        .ok { c with
          bind := before ++
            [{ b with filter := b.filter ++ [⟨srcIp, srcMaskIp, dstIp, dstMaskIp, allow⟩] }] } := by
  obtain ⟨srcMaskIp, dstMaskIp, hsrcMask, hdstMask, hfilter⟩ :=
    filterOf_filterFields hphost hsrcIp hdstIp srcMask dstMask allow
  refine ⟨srcMaskIp, dstMaskIp, hsrcMask, hdstMask, ?_⟩
  rw [processConfigLine_filter, processFilter, afterTag_self, Option.bind_some, hfilter]
  dsimp only
  rw [onLastBind_append hbind]

/-- A prefix length and a quad. -/
theorem filter_round_trip_sample :
    ∃ srcMaskIp dstMaskIp, (MaskText.prefixLength 24 (by decide)).Denotes srcMaskIp ∧
      (MaskText.quad ipnone).Denotes dstMaskIp ∧
      processConfigLine quadEnv oneBind
          ⟨"filter:".toList ++ filterFields ⟨192, 168, 102, 1⟩ (.prefixLength 24 (by decide))
            ⟨192, 168, 1, 201⟩ (.quad ipnone) false, ⟨0, 0⟩⟩ =
        .ok { oneBind with
          bind := [⟨[], [], [], [⟨⟨192, 168, 102, 1⟩, srcMaskIp, ⟨192, 168, 1, 201⟩, dstMaskIp,
            false⟩]⟩] } := by
  have hsrcIp : (⟨192, 168, 102, 1⟩ : IpAddress) ≠ ipnone := by decide
  have hdstIp : (⟨192, 168, 1, 201⟩ : IpAddress) ≠ ipnone := by decide
  have hbind : oneBind.bind = [] ++ [⟨[], [], [], []⟩] := rfl
  exact filter_round_trip phostbyname_text hbind ⟨0, 0⟩ hsrcIp hdstIp
    (.prefixLength 24 (by decide)) (.quad ipnone) false

/-! ## Lines that deny -/

/-- The hosts of a filter and what stands where its action is looked for. -/
def FilterCut (s src dst action : List Char) : Prop :=
  ∃ srcMask dstMask r₁ r₂ r₃, Cut isFilterEnd (skipBlanks s) src r₁ ∧
    Cut isFilterEnd r₁ srcMask r₂ ∧ Cut isFilterEnd r₂ dst r₃ ∧ Cut isBlank r₃ dstMask action

/-- A filter whose last word is `deny`, with any fields in front. -/
structure DenyLine where
  front : List Char
  blank : Char
  isBlank_blank : isBlank blank = true
  trail : List Char
  isBlank_trail : ∀ x ∈ trail, isBlank x = true

def DenyLine.fields (l : DenyLine) : List Char := l.front ++ l.blank :: ("deny".toList ++ l.trail)

/-- The last bind gets a filter that denies, or nothing changes. -/
def NeverAllows (c c' : AppConfig) : Prop :=
  c' = c ∨ ∃ before b f, f.allow = false ∧ c.bind = before ++ [b] ∧
    c' = { c with bind := before ++ [{ b with filter := b.filter ++ [f] }] }

theorem neverAllows_append {before : List BindConf} {b : BindConf} (hbind : c.bind = before ++ [b])
    (f : FilterInfo) :
    c.NeverAllows { c with bind := before ++ [{ b with filter := b.filter ++ [f] }] } ↔
      f.allow = false := by
  constructor
  · rintro (hsame | ⟨before', b', f', hf', hbind', hadded⟩)
    · have hlast : before ++ [{ b with filter := b.filter ++ [f] }] = before ++ [b] :=
        (congrArg bind hsame).trans hbind
      have hb := List.singleton_inj.mp (List.append_cancel_left hlast)
      have hfilter := congrArg BindConf.filter hb
      simp at hfilter
    · obtain ⟨rfl, hb⟩ := List.append_inj' (hbind.symm.trans hbind') rfl
      obtain rfl := List.singleton_inj.mp hb
      have hlast := List.append_cancel_left (congrArg bind hadded)
      have hfilter := congrArg BindConf.filter (List.singleton_inj.mp hlast)
      rwa [List.singleton_inj.mp (List.append_cancel_left hfilter)]
  · intro hf
    exact .inr ⟨before, b, f, hf, hbind, rfl⟩

theorem neverAllows_processFilter {src dst action : List Char} (hcut : FilterCut s src dst action) :
    c.NeverAllows (c.processFilter env ("filter:".toList ++ s)) ↔
      c.bind = [] ∨ env.phostbyname src = ipnone ∨ env.phostbyname dst = ipnone ∨
        "deny".toList <+: action := by
  obtain ⟨srcMask, dstMask, r₁, r₂, r₃, hsrc, hsrcMask, hdst, hdstMask⟩ := hcut
  rw [processFilter, afterTag_self, Option.bind_some, filterOf_cut rfl hsrc hsrcMask hdst hdstMask]
  by_cases hhosts : env.phostbyname src ≠ ipnone ∧ env.phostbyname dst ≠ ipnone
  · rw [if_pos hhosts]
    dsimp only
    rcases List.eq_nil_or_concat c.bind with hnil | ⟨before, b, hbind⟩
    · simp [onLastBind, NeverAllows, hnil]
    · rw [List.concat_eq_append] at hbind
      rw [onLastBind_append hbind, neverAllows_append hbind]
      simp [hbind, hhosts, startsWith]
  · rw [if_neg hhosts]
    have hunknown : env.phostbyname src = ipnone ∨ env.phostbyname dst = ipnone := by
      by_contra hboth
      exact hhosts (not_or.mp hboth)
    refine iff_of_true (.inl rfl) (.inr ?_)
    exact hunknown.imp_right .inl

theorem exists_filterCut (s : List Char) : ∃ src dst action, FilterCut s src dst action := by
  obtain ⟨src, r₁, hsrc⟩ := exists_cut isFilterEnd (skipBlanks s)
  obtain ⟨srcMask, r₂, hsrcMask⟩ := exists_cut isFilterEnd r₁
  obtain ⟨dst, r₃, hdst⟩ := exists_cut isFilterEnd r₂
  obtain ⟨dstMask, action, hdstMask⟩ := exists_cut isBlank r₃
  exact ⟨src, dst, action, srcMask, dstMask, r₁, r₂, r₃, hsrc, hsrcMask, hdst, hdstMask⟩

/-- A filter that ends with `deny` never allows, exactly if it is not added or `deny` stands right
behind the character that ends its fourth field. -/
theorem denyLine_neverAllows_iff (env : Env) (c : AppConfig) (clock : Clock) (l : DenyLine) :
    (∃ c', c.processConfigLine env ⟨"filter:".toList ++ l.fields, clock⟩ = .ok c' ∧
        c.NeverAllows c') ↔
      c.bind = [] ∨ ∃ src dst action, FilterCut l.fields src dst action ∧
        (env.phostbyname src = ipnone ∨ env.phostbyname dst = ipnone ∨
          "deny".toList <+: action) := by
  have hline : (∃ c', c.processConfigLine env ⟨"filter:".toList ++ l.fields, clock⟩ = .ok c' ∧
      c.NeverAllows c') ↔ c.NeverAllows (c.processFilter env ("filter:".toList ++ l.fields)) := by
    rw [processConfigLine_filter]
    simp
  rw [hline]
  constructor
  · intro h
    obtain ⟨src, dst, action, hcut⟩ := exists_filterCut l.fields
    exact ((neverAllows_processFilter hcut).mp h).imp_right fun h => ⟨src, dst, action, hcut, h⟩
  · rintro (hnil | ⟨src, dst, action, hcut, h⟩)
    · obtain ⟨src, dst, action, hcut⟩ := exists_filterCut l.fields
      exact (neverAllows_processFilter hcut).mpr (.inl hnil)
    · exact (neverAllows_processFilter hcut).mpr (.inr h)

/-- Two blanks in front of `deny`, and the filter allows. -/
theorem deny_behind_two_blanks_allows :
    ∃ f : FilterInfo, f.allow = true ∧
      oneBind.processConfigLine quadEnv
          ⟨"filter: 10.0.0.0/8 10.0.0.1/32  deny".toList, ⟨0, 0⟩⟩ =
        .ok { oneBind with bind := [⟨[], [], [], [f]⟩] } ∧
      ¬oneBind.NeverAllows { oneBind with bind := [⟨[], [], [], [f]⟩] } := by
  refine ⟨⟨⟨10, 0, 0, 0⟩, ⟨255, 0, 0, 0⟩, ⟨10, 0, 0, 1⟩, ipnone, true⟩, rfl, by rfl, fun h => ?_⟩
  have hbind : oneBind.bind = [] ++ [⟨[], [], [], []⟩] := rfl
  cases (neverAllows_append hbind _).mp h

end AppConfig

end Relb
