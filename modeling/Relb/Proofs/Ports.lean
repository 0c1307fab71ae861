import Relb.Proofs.ConfigFields
/-!
# Ports

A bind, an alsobind, a server and an administration line have a port, and all of them narrow its
number to sixteen bits before they test it. So a number that is out of range is only rejected if
nothing is left of it, and any other one is stored as a different port.
-/

namespace Relb

open ConfigLine.Sample (quadEnv)

variable {env : Env} {c : AppConfig} {clock : Clock} {s : List Char}

inductive PortTag
  | bind
  | alsobind
  | server
  | admin
  deriving DecidableEq

namespace PortTag

def text : PortTag → String
  | bind => "bind:"
  | alsobind => "alsobind:"
  | server => "server:"
  | admin => "admin:"

/-- Where `atoi` reads the port, behind the host if there is one. -/
def portText : PortTag → List Char → List Char
  | server, s => ((skipBlanks s).dropWhile (!isHostEnd ·)).drop 1
  | _, s =>
      match (skipBlanks s).dropWhile (!isHostEnd ·) with
      | ':' :: t => t
      | _ => skipBlanks s

/-- What has to hold of everything but the port: there is a bind to add to, and the host of a server
has an address. -/
def Takes (env : Env) (c : AppConfig) (s : List Char) : PortTag → Prop
  | bind => True
  | alsobind => c.bind ≠ []
  | server =>
      c.bind ≠ [] ∧ env.phostbyname ((skipBlanks s).takeWhile (!isHostEnd ·)) ≠ ipnone
  | admin => True

/-- The port that the line stores, and the configuration with the entry of the line. -/
def accepted (env : Env) (c : AppConfig) (s : List Char) : PortTag → Option (UInt16 × AppConfig)
  | bind =>
      (addressOf env ipany s).map fun a =>
        (a.srcPort, { c with bind := c.bind ++ [⟨[a], [], [], []⟩] })
  | alsobind =>
      if c.bind = [] then none
      else (addressOf env ipany s).map fun a =>
        (a.srcPort, c.onLastBind fun b => { b with address := b.address ++ [a] })
  | server =>
      if c.bind = [] then none
      else (serverOf env s).toOption.join.map fun d =>
        (d.dstPort, c.onLastBind fun b => { b with dst := b.dst ++ [d] })
  | admin =>
      (addressOf env ⟨127, 0, 0, 1⟩ s).map fun a =>
        (a.srcPort, { c with
          httpAdminIp := a.srcIp
          httpAdminPort := a.srcPort
          httpAdminEnabled := true })

/-- The entry is added with the number at the place of its port, or it is rejected. -/
def AsWritten (env : Env) (c : AppConfig) (s : List Char) (tag : PortTag) (c' : AppConfig) : Prop :=
  (∃ port, tag.accepted env c s = some (port, c') ∧ port.toNat = atoi (tag.portText s) ∧
      1 ≤ atoi (tag.portText s) ∧ atoi (tag.portText s) ≤ 65535) ∨
    tag.accepted env c s = none ∧ c' = c

/-! ## Reading the port -/

theorem portText_of_host {t : List Char}
    (h : (skipBlanks s).dropWhile (!isHostEnd ·) = ':' :: t) : admin.portText s = t := by
  change (match (skipBlanks s).dropWhile (!isHostEnd ·) with
    | ':' :: t => t
    | _ => skipBlanks s) = t
  simp only [h]

theorem portText_of_no_host (h : ∀ t, (skipBlanks s).dropWhile (!isHostEnd ·) ≠ ':' :: t) :
    admin.portText s = skipBlanks s := by
  change (match (skipBlanks s).dropWhile (!isHostEnd ·) with
    | ':' :: t => t
    | _ => skipBlanks s) = skipBlanks s
  split
  · rename_i t ht
    exact absurd ht (h t)
  · rfl

theorem addressOf_port (tag : PortTag) (htag : tag ≠ server) (dflt : IpAddress) (s : List Char) :
    ∃ ip, addressOf env dflt s =
      if UInt16.ofInt (atoi (tag.portText s)) = 0 then none
      else some ⟨ip, UInt16.ofInt (atoi (tag.portText s))⟩ := by
  -- the three tags read the port in the same place
  have htext : tag.portText s = admin.portText s := by
    cases tag with
    | server => exact absurd rfl htag
    | bind | alsobind | admin => rfl
  rw [htext]
  unfold addressOf
  dsimp only
  split
  · rename_i t ht
    rw [portText_of_host ht]
    exact ⟨_, rfl⟩
  · rename_i hother
    rw [portText_of_no_host hother]
    exact ⟨_, rfl⟩

theorem serverOf_port (env : Env) (s : List Char) :
    (∃ weight maxConnections, serverOf env s = .ok
      (if env.phostbyname ((skipBlanks s).takeWhile (!isHostEnd ·)) ≠ ipnone ∧
          UInt16.ofInt (atoi (server.portText s)) ≠ 0 then
        some ⟨env.phostbyname ((skipBlanks s).takeWhile (!isHostEnd ·)),
          UInt16.ofInt (atoi (server.portText s)), weight, maxConnections⟩
      else none)) ∨
    (serverOf env s = .error .overread ∧ atoi (server.portText s) = 0) := by
  have htext : server.portText s = ((skipBlanks s).dropWhile (!isHostEnd ·)).drop 1 := rfl
  rw [htext]
  unfold serverOf
  dsimp only
  cases (skipBlanks s).dropWhile (!isHostEnd ·) with
  | nil => exact .inr ⟨rfl, by decide +kernel⟩
  | cons x t => exact .inl ⟨_, _, rfl⟩

theorem entry_of_address (tag : PortTag) (htag : tag ≠ server) (dflt : IpAddress) (s : List Char)
    (add : BindAddress → AppConfig) :
    (UInt16.ofInt (atoi (tag.portText s)) ≠ 0 ∧
        ∃ c', (addressOf env dflt s).map (fun a => (a.srcPort, add a)) =
          some (UInt16.ofInt (atoi (tag.portText s)), c')) ∨
      (UInt16.ofInt (atoi (tag.portText s)) = 0 ∧
        (addressOf env dflt s).map (fun a => (a.srcPort, add a)) = none) := by
  obtain ⟨ip, haddress⟩ := addressOf_port tag htag dflt s
  rw [haddress]
  by_cases hport : UInt16.ofInt (atoi (tag.portText s)) = 0
  · rw [if_pos hport]
    exact .inr ⟨hport, rfl⟩
  · rw [if_neg hport]
    exact .inl ⟨hport, _, rfl⟩

/-- What is left of the number decides, if the rest of the line can be taken. -/
theorem accepted_port (tag : PortTag) (env : Env) (c : AppConfig) (s : List Char) :
    (UInt16.ofInt (atoi (tag.portText s)) ≠ 0 ∧ tag.Takes env c s ∧
        ∃ c', tag.accepted env c s = some (UInt16.ofInt (atoi (tag.portText s)), c')) ∨
      ((UInt16.ofInt (atoi (tag.portText s)) = 0 ∨ ¬tag.Takes env c s) ∧
        tag.accepted env c s = none) := by
  by_cases hroom : c.bind = [] ∧ (tag = alsobind ∨ tag = server)
  · obtain ⟨hbind, rfl | rfl⟩ := hroom
    · exact .inr ⟨.inr (not_not.mpr hbind), if_pos hbind⟩
    · exact .inr ⟨.inr fun htakes => htakes.1 hbind, if_pos hbind⟩
  cases tag with
  | bind =>
      rw [accepted]
      exact (entry_of_address bind (by decide) ipany s _).imp (fun h => ⟨h.1, trivial, h.2⟩)
        fun h => ⟨.inl h.1, h.2⟩
  | alsobind =>
      have hbind : c.bind ≠ [] := fun hbind => hroom ⟨hbind, .inl rfl⟩
      rw [accepted, if_neg hbind]
      exact (entry_of_address alsobind (by decide) ipany s _).imp (fun h => ⟨h.1, hbind, h.2⟩)
        fun h => ⟨.inl h.1, h.2⟩
  | server =>
      have hbind : c.bind ≠ [] := fun hbind => hroom ⟨hbind, .inr rfl⟩
      rw [accepted, if_neg hbind]
      obtain ⟨weight, maxConnections, hserver⟩ | ⟨hserver, hnumber⟩ := serverOf_port env s
      · rw [hserver]
        by_cases hport : UInt16.ofInt (atoi (server.portText s)) = 0
        · exact .inr ⟨.inl hport, by rw [if_neg fun h => h.2 hport]; rfl⟩
        · by_cases hhost : env.phostbyname ((skipBlanks s).takeWhile (!isHostEnd ·)) = ipnone
          · exact .inr ⟨.inr fun htakes => htakes.2 hhost, by rw [if_neg fun h => h.1 hhost]; rfl⟩
          · exact .inl ⟨hport, ⟨hbind, hhost⟩, _, by rw [if_pos ⟨hhost, hport⟩]; rfl⟩
      · rw [hserver, hnumber]
        exact .inr ⟨.inl rfl, rfl⟩
  | admin =>
      rw [accepted]
      exact (entry_of_address admin (by decide) ⟨127, 0, 0, 1⟩ s _).imp
        (fun h => ⟨h.1, trivial, h.2⟩) fun h => ⟨.inl h.1, h.2⟩

/-- The entry is all that a line changes. -/
theorem processConfigLine_accepted (tag : PortTag) (env : Env) (c : AppConfig) (clock : Clock)
    (s : List Char) :
    c.processConfigLine env ⟨tag.text.toList ++ s, clock⟩ =
        .ok (((tag.accepted env c s).map Prod.snd).getD c) ∨
      atoi (tag.portText s) = 0 ∧
        c.processConfigLine env ⟨tag.text.toList ++ s, clock⟩ = .error .overread := by
  have hnone : ∀ f, c.bind = [] → c.onLastBind f = c := by
    intro f hbind
    rw [AppConfig.onLastBind, if_neg (by simp [hbind])]
  cases tag with
  | bind =>
      left
      rw [text, AppConfig.processConfigLine_bind, AppConfig.processBind, afterTag_self, accepted]
      cases haddress : addressOf env ipany s <;> simp [haddress]
  | alsobind =>
      left
      rw [text, AppConfig.processConfigLine_alsobind, AppConfig.processAlsobind, afterTag_self,
        accepted]
      by_cases hbind : c.bind = []
      · cases haddress : addressOf env ipany s <;> simp [haddress, hbind, hnone]
      · cases haddress : addressOf env ipany s <;> simp [haddress, hbind]
  | server =>
      rw [text, AppConfig.processConfigLine_server, AppConfig.processServer, afterTag_self,
        accepted]
      dsimp only
      obtain ⟨weight, maxConnections, hserver⟩ | ⟨hserver, hnumber⟩ := serverOf_port env s
      · left
        rw [hserver]
        by_cases hbind : c.bind = []
        · rw [if_pos hbind]
          split <;> simp [Except.map, hbind, hnone]
        · rw [if_neg hbind]
          split <;> simp [Except.map, Except.toOption]
      · right
        rw [hserver]
        exact ⟨hnumber, rfl⟩
  | admin =>
      left
      rw [text, AppConfig.processConfigLine_admin, AppConfig.processAdmin, afterTag_self, accepted]
      cases haddress : addressOf env ⟨127, 0, 0, 1⟩ s <;> simp [haddress]

/-- A port is recorded as written, exactly if the number is in range, or the rest of the line cannot
be taken anyway, or nothing is left of the number. -/
theorem asWritten_iff (tag : PortTag) (env : Env) (c : AppConfig) (clock : Clock) (s : List Char) :
    (∀ c', c.processConfigLine env ⟨tag.text.toList ++ s, clock⟩ = .ok c' →
        tag.AsWritten env c s c') ↔
      (1 ≤ atoi (tag.portText s) ∧ atoi (tag.portText s) ≤ 65535) ∨
        atoi (tag.portText s) % 65536 = 0 ∨ ¬tag.Takes env c s := by
  have hnarrow := toNat_ofInt (atoi (tag.portText s))
  have hline := tag.processConfigLine_accepted env c clock s
  rcases tag.accepted_port env c s with ⟨hport, htakes, c₁, haccepted⟩ | ⟨hrejected, haccepted⟩
  · have hleft : atoi (tag.portText s) % 65536 ≠ 0 := by
      intro hzero
      exact hport (UInt16.toNat_inj.mp (by simp; omega))
    rw [haccepted] at hline
    have hok : c.processConfigLine env ⟨tag.text.toList ++ s, clock⟩ = .ok c₁ := by
      rcases hline with hok | ⟨hzero, -⟩
      · exact hok
      · exact absurd (by rw [hzero]; rfl) hleft
    constructor
    · intro h
      rcases h c₁ hok with ⟨port, -, -, hrange⟩ | ⟨hnone, -⟩
      · exact .inl hrange
      · rw [haccepted] at hnone
        cases hnone
    · rintro (hrange | hzero | hrest) c' hc'
      · obtain rfl := Except.ok.inj (hok.symm.trans hc')
        exact .inl ⟨_, haccepted, by omega, hrange⟩
      · exact absurd hzero hleft
      · exact absurd htakes hrest
  · rw [haccepted] at hline
    refine iff_of_true (fun c' hc' => .inr ⟨haccepted, ?_⟩)
      (.inr (hrejected.imp_left fun hport => ?_))
    · rcases hline with hok | ⟨-, herror⟩
      · exact Except.ok.inj (hc'.symm.trans hok)
      · rw [herror] at hc'
        cases hc'
    · rw [hport] at hnarrow
      exact hnarrow.symm

/-- A number that is out of range, and another port. -/
theorem port_narrowed :
    AppConfig.processConfigLine quadEnv (.create "") ⟨"bind: 65616".toList, ⟨0, 0⟩⟩ =
        .ok { AppConfig.create "" with bind := [⟨[⟨ipany, 80⟩], [], [], []⟩] } ∧
      ¬AsWritten quadEnv (.create "") " 65616".toList bind
        { AppConfig.create "" with bind := [⟨[⟨ipany, 80⟩], [], [], []⟩] } := by
  have hnumber : atoi (bind.portText " 65616".toList) = 65616 := by decide +kernel
  refine ⟨by rfl, ?_⟩
  rintro (⟨port, -, -, -, hle⟩ | ⟨-, hsame⟩)
  · rw [hnumber] at hle
    exact absurd hle (by decide)
  · cases congrArg AppConfig.bind hsame

end PortTag

end Relb
