import Relb.Lib.Sections
import Relb.Proofs.SettingsText
import Relb.Proofs.SetUp
/-!
# Whole files

A bind has what the lines between it and the next bind say, and `main` listens for the first bind
only. A file that is written from settings, in any order and with comments anywhere, is read as
these settings.
-/

namespace Relb

open Lib

open ConfigLine.Sample (januaryEnv phostbyname_text)

/-! ## Any file -/

/-- A bind and the lines that belong to it. -/
def sectionConf (env : Env) (s : BindAddress × List ConfigLine) : BindConf where
  address := s.1 :: s.2.filterMap (·.alsobindLine env)
  dst := s.2.filterMap (·.serverLine env)
  tasks := s.2.filterMap (·.taskLine env)
  filter := s.2.filterMap (·.filterLine env)

namespace AppConfig

variable {env : Env} {c c' : AppConfig} {lines : List ConfigLine}
  {files : String → Option (List ConfigLine)} {path : String}

theorem groupOf_newBind (s : BindAddress × List ConfigLine) :
    groupOf newBind (fun b l => l.addTo env b) s = sectionConf env s := foldl_addTo (newBind s.1)

theorem bind_processConfigLine {l : ConfigLine} (h : processConfigLine env c l = .ok c') :
    c'.bind = readItem (·.bindLine env) newBind (fun b l => l.addTo env b) c.bind l := by
  obtain ⟨c₀, hstart, -, hlast, -⟩ := processConfigLine_spec h
  cases hbind : l.bindLine env with
  | none =>
      rw [readItem_of_none hbind, hlast, hstart, hbind, Option.toList_none, List.map_nil,
        List.append_nil]
  | some address =>
      have hsame : l.addTo env = id := funext (ConfigLine.addTo_of_bindLine (by rw [hbind]; rfl))
      rw [readItem_of_some hbind, hlast, hsame, List.modify_id, hstart, hbind]
      rfl

theorem bind_foldlM (h : lines.foldlM (processConfigLine env) c = .ok c') :
    c'.bind = lines.foldl (readItem (·.bindLine env) newBind fun b l => l.addTo env b) c.bind := by
  induction lines generalizing c with
  | nil => exact congrArg bind (Except.ok.inj h).symm
  | cons l lines ih =>
      rw [List.foldlM_cons] at h
      obtain ⟨c₁, hl, h⟩ := of_bind_eq_ok h
      rw [ih h, List.foldl_cons, bind_processConfigLine hl]

theorem bind_eq_sections (hstart : c.bind = [])
    (h : lines.foldlM (processConfigLine env) c = .ok c') :
    c'.bind = (sections (·.bindLine env) lines).map (sectionConf env) := by
  rw [bind_foldlM h, hstart, foldl_readItem_nil]
  exact List.map_congr_left fun s _ => groupOf_newBind s

/-! ### The addresses of the first bind -/

theorem addresses_addAddresses {b : BindConf} {x : AppConfig × BindServer}
    (hb : x.1.theBind = some b) (haddress : x.1.currentAddress = 0)
    (hserver : x.1.currentServer = 0) (hne : b.address ≠ []) :
    (addAddresses x).2.addresses = x.2.addresses ++ b.address := by
  have hfuel : b.address.length ≤ x.1.countInBind BindConf.address + 1 := by
    rw [countInBind_eq hb]
    omega
  have hadd : ∀ (l : List (BindAddress × Nat)) (s : BindServer),
      (l.foldl BindServer.addBindAddress s).addresses = s.addresses ++ l.map Prod.fst := by
    intro l
    induction l with
    | nil => exact fun s => (List.append_nil _).symm
    | cons a l ih =>
        intro s
        rw [List.foldl_cons, ih]
        exact List.append_assoc ..
  obtain ⟨hresult, -⟩ := (walks_getNextAddress b).doWhile (doesEach_addAddress b)
    ⟨hb, hserver⟩ haddress hne hfuel x.2
  apply (congrArg BindServer.addresses hresult).trans
  rw [hadd, List.zipIdx_map_fst]

/-- The other loops leave the addresses alone. -/
theorem addresses_addFilters (serverClock taskClock : Int → Datetime)
    (x : AppConfig × BindServer) :
    (addFilters (addTasks taskClock (addServers serverClock x))).2.addresses = x.2.addresses := by
  have hserver : ∀ c b, (addServer serverClock c b).addresses = b.addresses := fun _ _ => rfl
  have hfilter : ∀ c b, (addFilter c b).addresses = b.addresses := fun _ _ => rfl
  have htask : ∀ c b, (addTask taskClock c b).addresses = b.addresses := by
    intro c b
    unfold addTask
    split <;> rfl
  have hservers : (addServers serverClock x).2.addresses = x.2.addresses :=
    whileNext_keeps (P := fun b : BindServer => b.addresses = x.2.addresses)
      (fun c b hb => (hserver c b).trans hb) _ _ (hserver _ _)
  have htasks : ∀ x : AppConfig × BindServer,
      (addTasks taskClock x).2.addresses = x.2.addresses := by
    intro x
    unfold addTasks
    dsimp only
    split
    · exact whileNext_keeps (P := fun b : BindServer => b.addresses = x.2.addresses)
        (fun c b hb => (htask c b).trans hb) _ _ rfl
    · rfl
  have hfilters : ∀ x : AppConfig × BindServer, (addFilters x).2.addresses = x.2.addresses := by
    intro x
    unfold addFilters
    dsimp only
    split
    · exact whileNext_keeps (P := fun b : BindServer => b.addresses = x.2.addresses)
        (fun c b hb => (hfilter c b).trans hb) _ _ rfl
    · rfl
  rw [hfilters, htasks, hservers]

theorem addresses_setUp {b : BindConf} {rest : List BindConf} (hbind : c.bind = b :: rest)
    (haddress : c.currentAddress = 0) (hserver : c.currentServer = 0) (haddresses : b.address ≠ [])
    (start : Datetime) (serverClock taskClock : Int → Datetime) :
    (c.setUp start serverClock taskClock).addresses = b.address := by
  have hfirst : c.getFirstBind.2.theBind = some b := by
    simp [getFirstBind, theBind, at?, hbind]
  have hadded := addresses_addAddresses (x := (c.getFirstBind.2,
    (BindServer.create start).setAdmin c.httpAdminEnabled c.httpAdminIp c.httpAdminPort))
    hfirst haddress hserver haddresses
  exact (addresses_addFilters serverClock taskClock _).trans hadded

/-- In every file that is accepted a bind has what is said between it and the next bind, and only
the first bind takes effect. -/
theorem sections_take_effect (hload : loadConfig env files (create path) = .ok (true, c))
    (hfile : files c.configfile = some lines) :
    c.bind = (sections (·.bindLine env) (lines.take 4000)).map (sectionConf env) ∧
      ∃ s rest, sections (·.bindLine env) (lines.take 4000) = s :: rest ∧
        ∀ start serverClock taskClock,
          (c.setUp start serverClock taskClock).addresses = (sectionConf env s).address ∧
          (c.setUp start serverClock taskClock).rules =
            ((sectionConf env s).dst, (sectionConf env s).filter,
              (sectionConf env s).tasks.map TaskInfo.configured) := by
  obtain ⟨hcheck, name, lines', hlines, hrun⟩ := loadConfig_spec hload
  obtain ⟨hname, -, hserver, -, -, haddress⟩ : c.configfile = name ∧ c.currentBind = 0 ∧
      c.currentServer = 0 ∧ c.currentTask = -1 ∧ c.currentFilter = 0 ∧ c.currentAddress = 0 := by
    simpa [indexes, create] using indexes_foldlM hrun
  rw [hname, hlines] at hfile
  obtain rfl := Option.some.inj hfile
  have hbinds := bind_eq_sections rfl hrun
  refine ⟨hbinds, ?_⟩
  cases hsections : sections (·.bindLine env) (lines'.take 4000) with
  | nil =>
      -- without a bind the configuration is not accepted
      rw [hsections] at hbinds
      simp [checkConfig, hbinds] at hcheck
  | cons s rest =>
      rw [hsections, List.map_cons] at hbinds
      obtain ⟨haddresses, hdst⟩ :=
        checkConfig_spec hcheck (sectionConf env s) (hbinds ▸ List.mem_cons_self)
      refine ⟨s, rest, rfl, fun start serverClock taskClock => ⟨?_, ?_⟩⟩
      · exact addresses_setUp hbinds haddress hserver haddresses start serverClock taskClock
      · exact rules_setUp hbinds haddress hserver haddresses hdst start serverClock taskClock

namespace Sample

/-- Two binds, each with a server, and a filter for the first one only. -/
def twoBinds : List ConfigLine :=
  [line "# two binds", bind, line "alsobind: 4390", server, deny, line "bind: 80",
    line "server: 192.168.1.201:80", task]

def firstConf : BindConf :=
  ⟨[⟨ipany, 4389⟩, ⟨ipany, 4390⟩], [⟨⟨192, 168, 1, 201⟩, 3389, 100, 20⟩], [], [denied]⟩

def secondConf : BindConf :=
  ⟨[⟨ipany, 80⟩], [⟨⟨192, 168, 1, 201⟩, 80, 0, 0⟩], [⟨.cleanConnections, 3600, 3600, false⟩], []⟩

end Sample

/-- The second bind is read, and the first one takes effect. -/
theorem sections_take_effect_two : ∃ c : AppConfig,
    loadConfig Sample.env (Sample.files Sample.twoBinds) (create "relb.conf") = .ok (true, c) ∧
      c.bind = [Sample.firstConf, Sample.secondConf] ∧
      (c.setUp 0 (fun _ => 0) (fun _ => 0)).addresses = [⟨ipany, 4389⟩, ⟨ipany, 4390⟩] ∧
      (c.setUp 0 (fun _ => 0) (fun _ => 0)).rules =
        ([⟨⟨192, 168, 1, 201⟩, 3389, 100, 20⟩], [Sample.denied], []) := by
  obtain ⟨c, hload, hname⟩ := loaded_of_any (P := fun c => decide (c.configfile = "relb.conf"))
    (x := loadConfig Sample.env (Sample.files Sample.twoBinds) (create "relb.conf"))
    (by decide +kernel)
  have hfile : Sample.files Sample.twoBinds c.configfile = some Sample.twoBinds := by
    rw [of_decide_eq_true hname]
    rfl
  have hcut : (sections (·.bindLine Sample.env) (Sample.twoBinds.take 4000)).map
      (sectionConf Sample.env) = [Sample.firstConf, Sample.secondConf] := by decide +kernel
  obtain ⟨hbinds, s, rest, hsections, hfirst⟩ := sections_take_effect hload hfile
  obtain ⟨haddresses, hrules⟩ := hfirst 0 (fun _ => 0) (fun _ => 0)
  rw [hsections, List.map_cons] at hcut
  rw [(List.cons.inj hcut).1] at haddresses hrules
  rw [hsections, List.map_cons, hcut] at hbinds
  exact ⟨c, hload, hbinds, haddresses, hrules⟩

end AppConfig

end Relb
