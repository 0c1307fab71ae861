import Mathlib.Data.List.Basic
import Relb.Model.AppConfig
/-!
# What a line adds to the configuration

Every line is shown to every tag, and the tags exclude each other: a line is a bind, or it adds
what its own text says to the last bind. So a file with one bind ends with the lines behind it.
-/

namespace Relb

namespace ConfigLine

variable (env : Env) (l : ConfigLine)

def bindLine : Option BindAddress := (afterTag "bind:" l.text).bind (addressOf env ipany)

def alsobindLine : Option BindAddress := (afterTag "alsobind:" l.text).bind (addressOf env ipany)

/-- A well-formed server: its fields can be read, its host has an address and its port is set. -/
def serverLine : Option DstConf :=
  (afterTag "server:" l.text).bind fun s => (serverOf env s).toOption.join

/-- A well-formed filter: both of its hosts have an address. -/
def filterLine : Option FilterInfo := (afterTag "filter:" l.text).bind (filterOf env)

/-- A well-formed task: it has an interval, or a valid first run to come. -/
def taskLine : Option TaskInfo :=
  (afterTag "task:" l.text).bind fun s => (taskOf env l.clock s).toOption.join

def addTo (b : BindConf) : BindConf where
  address := b.address ++ (l.alsobindLine env).toList
  dst := b.dst ++ (l.serverLine env).toList
  tasks := b.tasks ++ (l.taskLine env).toList
  filter := b.filter ++ (l.filterLine env).toList

variable {env l}

theorem afterTag_isSome {tag : String} {s : List Char} (h : (afterTag tag s).isSome) :
    ∃ rest, s = tag.toList ++ rest := by
  unfold afterTag startsWith at h
  split at h
  · rename_i hprefix
    obtain ⟨rest, hrest⟩ := List.isPrefixOf_iff_prefix.mp hprefix
    exact ⟨rest, hrest.symm⟩
  · cases h

theorem addTo_of_bindLine (h : (l.bindLine env).isSome) (b : BindConf) : l.addTo env b = b := by
  have htag : (afterTag "bind:" l.text).isSome := by
    cases htext : afterTag "bind:" l.text with
    | none => simp [bindLine, htext] at h
    | some s => rfl
  obtain ⟨rest, hrest⟩ := afterTag_isSome htag
  have hother : ∀ tag ∈ ["alsobind:", "server:", "task:", "filter:"],
      afterTag tag l.text = none := by
    intro tag hmem
    simp only [List.mem_cons, List.not_mem_nil, or_false] at hmem
    rcases hmem with rfl | rfl | rfl | rfl <;> simp [afterTag, startsWith, hrest]
  simp [addTo, alsobindLine, serverLine, taskLine, filterLine, hother]

theorem comment_spec (h : l.text.head? = some '/' ∨ l.text.head? = some ';' ∨
    l.text.head? = some '#') : l.bindLine env = none ∧ ∀ b, l.addTo env b = b := by
  have hother : ∀ tag ∈ ["bind:", "alsobind:", "server:", "task:", "filter:"],
      afterTag tag l.text = none := by
    intro tag hmem
    rw [← Option.not_isSome_iff_eq_none]
    intro hsome
    obtain ⟨rest, hrest⟩ := afterTag_isSome hsome
    simp only [List.mem_cons, List.not_mem_nil, or_false] at hmem
    rcases hmem with rfl | rfl | rfl | rfl | rfl <;> simp [hrest] at h
  simp [bindLine, addTo, alsobindLine, serverLine, taskLine, filterLine, hother]

end ConfigLine

namespace AppConfig

variable {env : Env} {c c' : AppConfig} {l : ConfigLine} {lines before behind : List ConfigLine}

theorem of_bind_eq_ok {α β : Type} {x : Except Fault α} {f : α → Except Fault β} {y : β}
    (h : x >>= f = .ok y) : ∃ a, x = .ok a ∧ f a = .ok y := by
  cases x with
  | ok a => exact ⟨a, rfl, h⟩
  | error fault => cases h

/-- The file and the indexes of the iterators, which no line changes. -/
def indexes (c : AppConfig) : String × Int × Int × Int × Int × Int :=
  (c.configfile, c.currentBind, c.currentServer, c.currentTask, c.currentFilter, c.currentAddress)

theorem bind_onLastBind (c : AppConfig) (f : BindConf → BindConf) :
    (c.onLastBind f).bind = c.bind.modify (c.bind.length - 1) f := by
  unfold onLastBind
  split
  · rfl
  · rename_i hempty
    have hnil : c.bind = [] := List.eq_nil_of_length_eq_zero (by omega)
    rw [hnil, List.modify_nil]

@[simp] theorem indexes_onLastBind (c : AppConfig) (f : BindConf → BindConf) :
    (c.onLastBind f).indexes = c.indexes := by
  unfold onLastBind
  split <;> rfl

/-- The binds are those of `c`, the last one changed by `f`. -/
def ChangesLast (c : AppConfig) (f : BindConf → BindConf) (c' : AppConfig) : Prop :=
  c'.bind = c.bind.modify (c.bind.length - 1) f ∧ c'.indexes = c.indexes

namespace ChangesLast

variable {f g : BindConf → BindConf} {c'' : AppConfig}

theorem onLastBind (c : AppConfig) (f : BindConf → BindConf) :
    c.ChangesLast f (c.onLastBind f) := ⟨bind_onLastBind c f, indexes_onLastBind c f⟩

theorem of_same (hbind : c'.bind = c.bind) (hindexes : c'.indexes = c.indexes)
    (hf : ∀ b, f b = b) : c.ChangesLast f c' := by
  obtain rfl : f = id := funext hf
  exact ⟨by rw [hbind, List.modify_id], hindexes⟩

theorem trans (h : c.ChangesLast f c') (h' : c'.ChangesLast g c'') :
    c.ChangesLast (g ∘ f) c'' := by
  refine ⟨?_, h'.2.trans h.2⟩
  rw [h'.1, h.1, List.length_modify, List.modify_modify_eq]

end ChangesLast

theorem changesLast_processAlsobind (c : AppConfig) :
    c.ChangesLast (fun b => { b with address := b.address ++ (l.alsobindLine env).toList })
      (c.processAlsobind env l.text) := by
  unfold processAlsobind ConfigLine.alsobindLine
  cases (afterTag "alsobind:" l.text).bind (addressOf env ipany) with
  | none => exact .of_same rfl rfl fun b => by simp
  | some address => exact .onLastBind c _

theorem changesLast_processFilter (c : AppConfig) :
    c.ChangesLast (fun b => { b with filter := b.filter ++ (l.filterLine env).toList })
      (c.processFilter env l.text) := by
  unfold processFilter ConfigLine.filterLine
  cases (afterTag "filter:" l.text).bind (filterOf env) with
  | none => exact .of_same rfl rfl fun b => by simp
  | some filter => exact .onLastBind c _

theorem changesLast_processServer (h : c.processServer env l.text = .ok c') :
    c.ChangesLast (fun b => { b with dst := b.dst ++ (l.serverLine env).toList }) c' := by
  unfold processServer at h
  cases htag : afterTag "server:" l.text with
  | none =>
      rw [htag] at h
      obtain rfl := Except.ok.inj h
      exact .of_same rfl rfl fun b => by simp [ConfigLine.serverLine, htag]
  | some s =>
      simp only [htag] at h
      cases hserver : serverOf env s with
      | error fault => rw [hserver] at h; cases h
      | ok server =>
          have hline : l.serverLine env = server := by
            rw [ConfigLine.serverLine, htag, Option.bind_some, hserver]
            cases server <;> rfl
          rw [hserver] at h
          obtain rfl := Except.ok.inj h
          rw [hline]
          cases server with
          | none => exact .of_same rfl rfl fun b => by simp
          | some dst => exact .onLastBind c _

theorem changesLast_processTask (h : c.processTask env l.clock l.text = .ok c') :
    c.ChangesLast (fun b => { b with tasks := b.tasks ++ (l.taskLine env).toList }) c' := by
  unfold processTask at h
  cases htag : afterTag "task:" l.text with
  | none =>
      rw [htag] at h
      obtain rfl := Except.ok.inj h
      exact .of_same rfl rfl fun b => by simp [ConfigLine.taskLine, htag]
  | some s =>
      simp only [htag] at h
      cases htask : taskOf env l.clock s with
      | error fault => rw [htask] at h; cases h
      | ok task =>
          have hline : l.taskLine env = task := by
            rw [ConfigLine.taskLine, htag, Option.bind_some, htask]
            cases task <;> rfl
          rw [htask] at h
          obtain rfl := Except.ok.inj h
          rw [hline]
          cases task with
          | none => exact .of_same rfl rfl fun b => by simp
          | some task => exact .onLastBind c _

/-! The tags that no bind is about. -/

theorem changesLast_processRetry (c : AppConfig) (s : List Char) :
    c.ChangesLast id (c.processRetry s) := by
  unfold processRetry
  split <;> exact .of_same rfl rfl fun _ => rfl

theorem changesLast_processAdmin (env : Env) (c : AppConfig) (s : List Char) :
    c.ChangesLast id (c.processAdmin env s) := by
  unfold processAdmin
  split <;> exact .of_same rfl rfl fun _ => rfl

theorem changesLast_processConnectionsPerThread (c : AppConfig) (s : List Char) :
    c.ChangesLast id (c.processConnectionsPerThread s) := by
  unfold processConnectionsPerThread
  split <;> exact .of_same rfl rfl fun _ => rfl

def newBind (address : BindAddress) : BindConf := ⟨[address], [], [], []⟩

theorem processBind_spec (c : AppConfig) (env : Env) (l : ConfigLine) :
    (c.processBind env l.text).bind = c.bind ++ (l.bindLine env).toList.map newBind ∧
      (c.processBind env l.text).indexes = c.indexes := by
  unfold processBind ConfigLine.bindLine
  cases (afterTag "bind:" l.text).bind (addressOf env ipany) with
  | none => exact ⟨(List.append_nil _).symm, rfl⟩
  | some address => exact ⟨rfl, rfl⟩

/-- What one line does: it may be a new bind, and the last bind gets what it adds. -/
theorem processConfigLine_spec (h : processConfigLine env c l = .ok c') :
    ∃ c₀ : AppConfig, c₀.bind = c.bind ++ (l.bindLine env).toList.map newBind ∧
      c₀.indexes = c.indexes ∧ c₀.ChangesLast (l.addTo env) c' := by
  unfold processConfigLine at h
  dsimp only at h
  split at h
  · rename_i hcomment
    obtain rfl := Except.ok.inj h
    obtain ⟨hbind, hadd⟩ : l.bindLine env = none ∧ ∀ b, l.addTo env b = b :=
      ConfigLine.comment_spec hcomment
    rw [hbind]
    exact ⟨c, (List.append_nil _).symm, rfl, .of_same rfl rfl hadd⟩
  · obtain ⟨hbind, hindexes⟩ := processBind_spec c env l
    refine ⟨_, hbind, hindexes, ?_⟩
    generalize c.processBind env l.text = c₀ at h
    obtain ⟨c₁, hserver, h⟩ := of_bind_eq_ok h
    obtain ⟨c₂, htask, h⟩ := of_bind_eq_ok h
    obtain rfl := Except.ok.inj h
    -- one change of the last bind after the other
    exact (changesLast_processAlsobind c₀).trans (changesLast_processServer hserver)
      |>.trans (changesLast_processRetry c₁ l.text)
      |>.trans (changesLast_processFilter _)
      |>.trans (changesLast_processAdmin env _ l.text)
      |>.trans (changesLast_processTask htask)
      |>.trans (changesLast_processConnectionsPerThread c₂ l.text)

/-! ## Files -/

theorem indexes_foldlM (h : lines.foldlM (processConfigLine env) c = .ok c') :
    c'.indexes = c.indexes := by
  induction lines generalizing c with
  | nil => exact congrArg indexes (Except.ok.inj h).symm
  | cons l lines ih =>
      rw [List.foldlM_cons] at h
      obtain ⟨c₁, hl, h⟩ := of_bind_eq_ok h
      obtain ⟨c₀, -, hindexes, hlast⟩ := processConfigLine_spec hl
      calc
        c'.indexes = c₁.indexes := ih h
        _ = c₀.indexes := hlast.2
        _ = c.indexes := hindexes

theorem foldlM_spec (hnone : ∀ l ∈ lines, l.bindLine env = none) (hbind : c.bind.length ≤ 1)
    (h : lines.foldlM (processConfigLine env) c = .ok c') :
    c'.bind = c.bind.map (fun b => lines.foldl (fun b l => l.addTo env b) b) := by
  induction lines generalizing c with
  | nil =>
      obtain rfl := Except.ok.inj h
      exact (List.map_id _).symm
  | cons l lines ih =>
      rw [List.foldlM_cons] at h
      obtain ⟨c₁, hl, h⟩ := of_bind_eq_ok h
      obtain ⟨c₀, hstart, -, hlast, -⟩ := processConfigLine_spec hl
      rw [hnone l List.mem_cons_self, Option.toList_none, List.map_nil, List.append_nil] at hstart
      have hbind₁ : c₁.bind = c.bind.map (l.addTo env) := by
        rw [hlast, hstart]
        match c.bind, hbind with
        | [], _ => rfl
        | [b], _ => rfl
      rw [ih (fun x hx => hnone x (List.mem_cons_of_mem _ hx))
        (by rw [hbind₁, List.length_map]; exact hbind) h, hbind₁, List.map_map]
      rfl

theorem foldl_addTo (b : BindConf) : lines.foldl (fun b l => l.addTo env b) b =
    ⟨b.address ++ lines.filterMap (·.alsobindLine env), b.dst ++ lines.filterMap (·.serverLine env),
      b.tasks ++ lines.filterMap (·.taskLine env),
      b.filter ++ lines.filterMap (·.filterLine env)⟩ := by
  have hcons : ∀ {α : Type} (f : ConfigLine → Option α) (l : ConfigLine) (lines : List ConfigLine),
      (l :: lines).filterMap f = (f l).toList ++ lines.filterMap f := by
    intro α f l lines
    rw [List.filterMap_cons]
    cases f l <;> rfl
  induction lines generalizing b with
  | nil => simp
  | cons l lines ih =>
      rw [List.foldl_cons, ih]
      simp [ConfigLine.addTo, hcons]

theorem oneBind_spec {address : BindAddress} (hbind : l.bindLine env = some address)
    (hnone : ∀ x ∈ before ++ behind, x.bindLine env = none) (hstart : c.bind = [])
    (h : (before ++ l :: behind).foldlM (processConfigLine env) c = .ok c') :
    c'.bind = [⟨address :: behind.filterMap (·.alsobindLine env),
      behind.filterMap (·.serverLine env), behind.filterMap (·.taskLine env),
      behind.filterMap (·.filterLine env)⟩] := by
  rw [List.foldlM_append] at h
  obtain ⟨c₁, hbefore, h⟩ := of_bind_eq_ok h
  rw [List.foldlM_cons] at h
  obtain ⟨c₂, hl, h⟩ := of_bind_eq_ok h
  have hbind₁ := foldlM_spec (fun x hx => hnone x (List.mem_append_left _ hx))
    (by simp [hstart]) hbefore
  obtain ⟨c₀, hnew, -, hlast, -⟩ := processConfigLine_spec hl
  have hbind₂ : c₂.bind = [newBind address] := by
    have hsome : (l.bindLine env).isSome := by rw [hbind]; rfl
    rw [hlast, hnew, hbind₁, hstart, hbind]
    exact congrArg (fun b => [b]) (ConfigLine.addTo_of_bindLine hsome (newBind address))
  rw [foldlM_spec (fun x hx => hnone x (List.mem_append_right _ hx)) (by simp [hbind₂]) h, hbind₂,
    List.map_singleton, foldl_addTo]
  rfl

end AppConfig

end Relb
