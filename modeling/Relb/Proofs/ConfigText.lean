import Relb.Model.ConfigText
import Relb.Proofs.ConfigFields
/-!
# Lines are read up to their NUL

Each parser that moves an index does to what is left of the line what the parser over the rest of
the line does, so that `processConfigLine` is the same either way. Every index stays on the line but
one: behind the host of a server it steps over the NUL, if the line ends there.
-/

namespace Relb

open Lib

namespace ConfigText

variable {env : Env} {clock : Clock} {line s : List Char} {h : Nat} {c : AppConfig}

/-! ## Reading -/

theorem charAt_eq (hs : Stands line h s) : charAt line h = .ok s.head? := hs.readAt_eq

theorem scan_eq (hs : Stands line h s) (p : Char → Bool) :
    ∃ g, scan p line h = .ok g ∧ Stands line g (s.dropWhile p) ∧
      g - h = (s.takeWhile p).length :=
  ⟨_, hs.scanWhile_eq p, hs.dropWhile p, Nat.add_sub_cancel_left ..⟩

theorem stepOver_eq (hs : Stands line h s) :
    ∃ g, stepOver line h = .ok g ∧ Stands line g (s.drop 1) := by
  unfold stepOver
  rw [charAt_eq hs]
  cases s with
  | nil => exact ⟨h, rfl, hs⟩
  | cons c s => exact ⟨h + 1, rfl, hs.next⟩

theorem copy_eq (hs : Stands line h s) (p : Char → Bool) :
    copy line h (s.takeWhile p).length = .ok (s.takeWhile p) := hs.copyAt_takeWhile p

theorem startsWith_eq (hs : Stands line h s) (word : String) :
    startsWith line h word = .ok (Relb.startsWith s word) := hs.matchAt_eq word.toList

theorem atoi_eq (hs : Stands line h s) : atoi line h = .ok (Relb.atoi s) := by
  obtain ⟨g, hscan, hg, -⟩ := scan_eq hs isSpace
  have hdigits : ∀ {g t}, Stands line g t →
      foldWhile Fault.overread Char.isDigit (fun n c => 10 * n + (c.toNat - '0'.toNat)) line 0 g =
        .ok (leadingNumber t, g + (t.takeWhile Char.isDigit).length) := fun ht => ht.foldWhile_eq 0
  unfold atoi Relb.atoi
  rw [hscan, ok_bind, charAt_eq hg, ok_bind]
  generalize s.dropWhile isSpace = t at hg
  cases t with
  | nil =>
      dsimp only
      rw [if_neg (by simp), hdigits hg]
      rfl
  | cons c t =>
      by_cases hminus : c = '-'
      · subst hminus
        rw [if_pos (by simp)]
        dsimp only
        rw [hdigits hg.next]
        rfl
      · by_cases hplus : c = '+'
        · subst hplus
          rw [if_pos (by simp)]
          dsimp only
          rw [hdigits hg.next]
          rfl
        · dsimp only
          rw [if_neg (by simp [hminus, hplus]), hdigits hg, ok_bind]
          simp [hminus, hplus]
          rfl

theorem atoi_behind (h : Nat) (hbehind : line.length < h) :
    atoi line h = .error .overread := by
  have hread : readAt Fault.overread line h = .error .overread := if_neg (by omega)
  simp only [atoi, scan, scanWhile, foldWhile, foldFrom, hread]
  rfl

theorem isEnd_of_dropWhile {isEnd : Char → Bool} {c : Char} {t : List Char}
    (h : s.dropWhile (!isEnd ·) = c :: t) : isEnd c = true := by
  have hhead := List.head?_dropWhile_not (!isEnd ·) s
  rw [h] at hhead
  simpa using hhead

theorem nextField_eq (hs : Stands line h s) :
    ∃ g, nextField line h = .ok g ∧ Stands line g (Relb.nextField s) := by
  obtain ⟨g, hscan, hg, -⟩ := scan_eq hs fun c => c ≠ ',' && c ≠ ' '
  unfold nextField Relb.nextField
  rw [hscan, ok_bind, charAt_eq hg, ok_bind]
  cases ht : s.dropWhile fun c => c ≠ ',' && c ≠ ' ' with
  | nil =>
      rw [ht] at hg
      exact ⟨g, rfl, hg⟩
  | cons c t =>
      rw [ht] at hg
      have hend : c = ',' ∨ c = ' ' := by
        have hhead := List.head?_dropWhile_not (fun c => c ≠ ',' && c ≠ ' ') s
        rw [ht] at hhead
        by_contra hother
        push Not at hother
        simp [hother] at hhead
      exact ⟨g + 1, by simp [hend]; rfl, hg.next⟩

theorem nextWord_eq (hs : Stands line h s) :
    ∃ g, nextWord line h = .ok g ∧ Stands line g (Relb.nextWord s) := by
  obtain ⟨g, hscan, hg, -⟩ := scan_eq hs (· ≠ ' ')
  obtain ⟨g', hscan', hg', -⟩ := scan_eq hg (· == ' ')
  exact ⟨g', by rw [nextWord, hscan, ok_bind, hscan'], hg'⟩

theorem afterChar_eq (hs : Stands line h s) (c : Char) :
    ∃ g, afterChar c line h = .ok g ∧ Stands line g (Relb.afterChar c s) := by
  obtain ⟨g, hscan, hg, -⟩ := scan_eq hs (· ≠ c)
  obtain ⟨g', hstep, hg'⟩ := stepOver_eq hg
  exact ⟨g', by rw [afterChar, hscan, ok_bind, hstep], hg'⟩

/-! ## The values of a line -/

theorem addressOf_eq (hs : Stands line h s) (dflt : IpAddress) :
    addressOf env dflt line h = .ok (Relb.addressOf env dflt s) := by
  obtain ⟨h₁, hblanks, hs₁, -⟩ := scan_eq hs isBlank
  obtain ⟨g, hhost, hg, hlength⟩ := scan_eq hs₁ (!isHostEnd ·)
  unfold addressOf Relb.addressOf skipBlanks
  rw [hblanks, ok_bind, hhost, ok_bind, charAt_eq hg, ok_bind]
  generalize s.dropWhile isBlank = t at *
  by_cases hcolon : (t.dropWhile (!isHostEnd ·)).head? = some ':'
  · obtain ⟨u, hu⟩ := List.head?_eq_some_iff.mp hcolon
    rw [if_pos hcolon, hlength, copy_eq hs₁, ok_bind]
    rw [hu] at hg
    dsimp only
    rw [pure_bind, hu]
    dsimp only
    rw [atoi_eq hg.next]
    rfl
  · rw [if_neg hcolon, pure_bind]
    dsimp only
    rw [atoi_eq hs₁, ok_bind]
    cases hu : t.dropWhile (!isHostEnd ·) with
    | nil => rfl
    | cons c u =>
        have hother : c ≠ ':' := by
          rw [hu] at hcolon
          simpa using hcolon
        simp [hother]
        rfl

theorem serverOf_eq (hs : Stands line h s) : serverOf env line h = Relb.serverOf env s := by
  obtain ⟨h₁, hblanks, hs₁, -⟩ := scan_eq hs isBlank
  obtain ⟨g, hhost, hg, hlength⟩ := scan_eq hs₁ (!isHostEnd ·)
  unfold serverOf Relb.serverOf skipBlanks
  rw [hblanks, ok_bind, hhost, ok_bind, hlength, copy_eq hs₁, ok_bind, charAt_eq hg, ok_bind]
  dsimp only
  generalize s.dropWhile isBlank = t at *
  cases hu : t.dropWhile (!isHostEnd ·) with
  | nil =>
      -- the index is behind the NUL, and the port is read from there
      rw [hu] at hg
      have hend : line.length < g + 1 := by
        have hlength := hg.length_eq
        rw [List.length_nil] at hlength
        omega
      rw [if_pos (by simp), atoi_behind _ hend]
      rfl
  | cons c u =>
      rw [hu] at hg
      have hc : c = ',' ∨ c = ':' := by
        simpa [isHostEnd] using isEnd_of_dropWhile hu
      obtain ⟨h₂, hskip, hs₂⟩ := stepOver_eq hg.next
      obtain ⟨h₃, hweight, hs₃⟩ := nextField_eq hs₂
      obtain ⟨h₄, hmax, hs₄⟩ := nextField_eq hs₃
      rw [if_pos (by simpa using hc), atoi_eq hg.next, ok_bind, hskip, ok_bind,
        hweight, ok_bind, atoi_eq hs₃, ok_bind, hmax, ok_bind, atoi_eq hs₄]
      rfl

theorem maskOf_eq (hs : Stands line h s) (p : Char → Bool) :
    maskOf env line h (s.takeWhile p).length = .ok (Relb.maskOf env (s.takeWhile p) s) := by
  unfold maskOf Relb.maskOf
  split
  · rw [copy_eq hs]
    rfl
  · rw [atoi_eq hs]
    rfl

theorem hostAt_eq (env : Env) (hs : Stands line h s) (isEnd : Char → Bool) :
    ∃ g, hostAt env isEnd line h = .ok (env.phostbyname (s.takeWhile (!isEnd ·)), g) ∧
      Stands line g (s.dropWhile (!isEnd ·)) := by
  obtain ⟨g, hhost, hg, hlength⟩ := scan_eq hs (!isEnd ·)
  refine ⟨g, ?_, hg⟩
  unfold hostAt
  rw [hhost, ok_bind, hlength, copy_eq hs]
  rfl

theorem maskAt_eq (env : Env) (hs : Stands line h s) (isEnd : Char → Bool) :
    ∃ g, maskAt env isEnd line h = .ok (Relb.maskOf env (s.takeWhile (!isEnd ·)) s, g) ∧
      Stands line g (s.dropWhile (!isEnd ·)) := by
  obtain ⟨g, hmask, hg, hlength⟩ := scan_eq hs (!isEnd ·)
  refine ⟨g, ?_, hg⟩
  unfold maskAt
  rw [hmask, ok_bind, hlength, maskOf_eq hs]
  rfl

theorem isDenied_eq (hs : Stands line h s) :
    isDenied line h = .ok (Relb.startsWith (s.drop 1) "deny") := by
  unfold isDenied
  rw [charAt_eq hs, ok_bind]
  cases s with
  | nil => rfl
  | cons c s => exact startsWith_eq hs.next "deny"

theorem filterOf_eq (hs : Stands line h s) :
    filterOf env line h = .ok (Relb.filterOf env s) := by
  obtain ⟨h₁, hblanks, hs₁, -⟩ := scan_eq hs isBlank
  obtain ⟨h₂, hsrc, hs₂⟩ := hostAt_eq env hs₁ isFilterEnd
  obtain ⟨h₃, hstep₃, hs₃⟩ := stepOver_eq hs₂
  obtain ⟨h₄, hsrcMask, hs₄⟩ := maskAt_eq env hs₃ isFilterEnd
  obtain ⟨h₅, hstep₅, hs₅⟩ := stepOver_eq hs₄
  obtain ⟨h₆, hdst, hs₆⟩ := hostAt_eq env hs₅ isFilterEnd
  obtain ⟨h₇, hstep₇, hs₇⟩ := stepOver_eq hs₆
  obtain ⟨h₈, hdstMask, hs₈⟩ := maskAt_eq env hs₇ isBlank
  unfold filterOf Relb.filterOf skipBlanks
  rw [hblanks, ok_bind, hsrc, ok_bind]
  dsimp only
  rw [hstep₃, ok_bind, hsrcMask, ok_bind]
  dsimp only
  rw [hstep₅, ok_bind, hdst, ok_bind]
  dsimp only
  rw [hstep₇, ok_bind, hdstMask, ok_bind]
  dsimp only
  rw [isDenied_eq hs₈]
  rfl

theorem timeOf_eq (hs : Stands line h s) : timeOf env line h = .ok (Relb.timeOf env s) := by
  obtain ⟨h₁, hmin, hs₁⟩ := afterChar_eq hs ':'
  obtain ⟨h₂, hsec, hs₂⟩ := afterChar_eq hs₁ ':'
  unfold timeOf
  rw [atoi_eq hs, ok_bind, hmin, ok_bind, atoi_eq hs₁, ok_bind, hsec, ok_bind, atoi_eq hs₂]
  rfl

theorem firstRunOf_eq (hs : Stands line h s) :
    firstRunOf env clock line h = .ok (Relb.firstRunOf env clock s) := by
  obtain ⟨h₁, hword, hs₁⟩ := nextWord_eq hs
  obtain ⟨h₂, hmonth, hs₂⟩ := afterChar_eq hs '/'
  obtain ⟨h₃, hday, hs₃⟩ := afterChar_eq hs₂ '/'
  obtain ⟨h₄, hword', hs₄⟩ := nextWord_eq hs₃
  unfold firstRunOf Relb.firstRunOf
  dsimp only
  rw [atoi_eq hs, ok_bind]
  split
  · rw [timeOf_eq hs]
    rfl
  · split
    · rw [hword, ok_bind, timeOf_eq hs₁]
      rfl
    · rw [hmonth, ok_bind, atoi_eq hs₂, ok_bind, hday, ok_bind, atoi_eq hs₃, ok_bind, hword',
        ok_bind, timeOf_eq hs₄]
      rfl

theorem taskTypeOf_eq (hs : Stands line h s) :
    taskTypeOf line h = .ok (Relb.taskTypeOf s) := by
  unfold taskTypeOf
  rw [startsWith_eq hs, ok_bind, startsWith_eq hs, ok_bind, startsWith_eq hs]
  rfl

theorem taskOf_eq (hs : Stands line h s) :
    taskOf env clock line h = Relb.taskOf env clock s := by
  obtain ⟨h₁, hblanks, hs₁, -⟩ := scan_eq hs isBlank
  obtain ⟨h₂, hinterval, hs₂⟩ := nextWord_eq hs₁
  obtain ⟨h₃, hfirst, hs₃⟩ := nextWord_eq hs₂
  unfold taskOf Relb.taskOf skipBlanks
  dsimp only
  rw [hblanks, ok_bind, taskTypeOf_eq hs₁, ok_bind, hinterval, ok_bind, atoi_eq hs₂, ok_bind,
    hfirst, ok_bind, charAt_eq hs₃, ok_bind]
  simp only [List.head?_eq_none_iff]
  split
  · rfl
  · rw [firstRunOf_eq hs₃]
    rfl

theorem numberOf_eq (hs : Stands line h s) :
    numberOf line h = .ok (Relb.atoi (skipBlanks s)) := by
  obtain ⟨h₁, hblanks, hs₁, -⟩ := scan_eq hs isBlank
  unfold numberOf
  rw [hblanks, ok_bind, atoi_eq hs₁]
  rfl

/-! ## The tags -/

theorem entryOf_eq {α : Type} {parse : List Char → Nat → Except Fault (Option α)}
    {f : List Char → Except Fault (Option α)}
    (hparse : ∀ {h s}, Stands line h s → parse line h = f s) (tag : String) :
    entryOf tag parse line =
      match afterTag tag line with
      | some s => f s
      | none => .ok none := by
  unfold entryOf afterTag
  rw [startsWith_eq (.zero line), ok_bind]
  cases htag : Relb.startsWith line tag with
  | false => rfl
  | true =>
      obtain ⟨rest, hrest⟩ := List.isPrefixOf_iff_prefix.mp htag
      have hs : Stands line tag.toList.length (line.drop tag.toList.length) :=
        ⟨tag.toList, by rw [← hrest, List.drop_left], rfl⟩
      exact hparse hs

theorem entryOf_ok {α : Type} {parse : List Char → Nat → Except Fault (Option α)}
    {f : List Char → Option α} (hparse : ∀ {h s}, Stands line h s → parse line h = .ok (f s))
    (tag : String) : entryOf tag parse line = .ok ((afterTag tag line).bind f) := by
  rw [entryOf_eq hparse]
  cases afterTag tag line <;> rfl

theorem entryOf_number (tag : String) :
    entryOf tag (fun line h => some <$> numberOf line h) line =
      .ok ((afterTag tag line).map fun s => Relb.atoi (skipBlanks s)) := by
  rw [Option.map_eq_bind]
  exact entryOf_ok (fun hs => by rw [numberOf_eq hs]; rfl) tag

theorem processBind_eq : processBind env line c = .ok (c.processBind env line) := by
  unfold processBind AppConfig.processBind
  rw [entryOf_ok fun hs => addressOf_eq hs ipany]
  cases (afterTag "bind:" line).bind _ <;> rfl

theorem processAlsobind_eq : processAlsobind env line c = .ok (c.processAlsobind env line) := by
  unfold processAlsobind AppConfig.processAlsobind
  rw [entryOf_ok fun hs => addressOf_eq hs ipany]
  cases (afterTag "alsobind:" line).bind _ <;> rfl

theorem processServer_eq : processServer env line c = c.processServer env line := by
  unfold processServer AppConfig.processServer
  rw [entryOf_eq serverOf_eq]
  cases afterTag "server:" line with
  | none => rfl
  | some s =>
      dsimp only
      cases Relb.serverOf env s with
      | error fault => rfl
      | ok dst => cases dst <;> rfl

theorem processRetry_eq : processRetry line c = .ok (c.processRetry line) := by
  unfold processRetry AppConfig.processRetry
  rw [entryOf_number]
  cases afterTag "retryserver:" line <;> rfl

theorem processFilter_eq : processFilter env line c = .ok (c.processFilter env line) := by
  unfold processFilter AppConfig.processFilter
  rw [entryOf_ok filterOf_eq]
  cases (afterTag "filter:" line).bind _ <;> rfl

theorem processAdmin_eq : processAdmin env line c = .ok (c.processAdmin env line) := by
  unfold processAdmin AppConfig.processAdmin
  rw [entryOf_ok fun hs => addressOf_eq hs ⟨127, 0, 0, 1⟩]
  cases (afterTag "admin:" line).bind _ <;> rfl

theorem processTask_eq : processTask env clock line c = c.processTask env clock line := by
  unfold processTask AppConfig.processTask
  rw [entryOf_eq taskOf_eq]
  cases afterTag "task:" line with
  | none => rfl
  | some s =>
      dsimp only
      cases Relb.taskOf env clock s with
      | error fault => rfl
      | ok task => cases task <;> rfl

theorem processConnectionsPerThread_eq :
    processConnectionsPerThread line c = .ok (c.processConnectionsPerThread line) := by
  unfold processConnectionsPerThread AppConfig.processConnectionsPerThread
  rw [entryOf_number]
  cases afterTag "conperthread:" line <;> rfl

theorem processConfigLine_eq (env : Env) (c : AppConfig) (line : ConfigLine) :
    processConfigLine env c line = AppConfig.processConfigLine env c line := by
  unfold processConfigLine AppConfig.processConfigLine
  dsimp only
  rw [charAt_eq (.zero line.text), ok_bind]
  split
  · rfl
  · rw [processBind_eq, ok_bind, processAlsobind_eq, ok_bind, processServer_eq]
    cases ((c.processBind env line.text).processAlsobind env line.text).processServer env
        line.text with
    | error fault => rfl
    | ok c =>
        rw [ok_bind, ok_bind, processRetry_eq, ok_bind, processFilter_eq, ok_bind,
          processAdmin_eq, ok_bind, processTask_eq]
        cases AppConfig.processTask env line.clock line.text
            (((c.processRetry line.text).processFilter env line.text).processAdmin env
              line.text) with
        | error fault => rfl
        | ok c =>
            rw [ok_bind, processConnectionsPerThread_eq]
            rfl

/-! ## Reads behind the NUL -/

theorem dropWhile_host_eq_nil_iff : (skipBlanks s).dropWhile (!isHostEnd ·) = [] ↔
    ∀ c ∈ s, isHostEnd c = false := by
  have hblank : ∀ c ∈ s.takeWhile isBlank, isHostEnd c = false := by
    intro c hc
    have hc : c = ' ' ∨ c = '\t' := by simpa [isBlank] using List.mem_takeWhile_imp hc
    rcases hc with rfl | rfl <;> rfl
  have hsplit : ∀ c, c ∈ s ↔ c ∈ s.takeWhile isBlank ∨ c ∈ skipBlanks s := by
    intro c
    rw [← List.mem_append, skipBlanks, List.takeWhile_append_dropWhile]
  simp only [List.dropWhile_eq_nil_iff, Bool.not_eq_true', hsplit]
  exact ⟨fun h c hc => hc.elim (hblank c) (h c), fun h c hc => h c (.inr hc)⟩

theorem serverOf_error_iff {fault : Fault} : Relb.serverOf env s = .error fault ↔
    fault = .overread ∧ ∀ c ∈ s, isHostEnd c = false := by
  rw [← dropWhile_host_eq_nil_iff]
  unfold Relb.serverOf
  dsimp only
  cases (skipBlanks s).dropWhile (!isHostEnd ·) with
  | nil =>
      constructor
      · intro h
        exact ⟨(Except.error.inj h).symm, rfl⟩
      · rintro ⟨rfl, -⟩
        rfl
  | cons c t =>
      constructor
      · intro h
        cases h
      · rintro ⟨-, h⟩
        cases h

theorem taskOf_ne_overread : Relb.taskOf env clock s ≠ .error .overread := by
  have hcatchUp : ∀ now interval firstRun,
      catchUp now interval firstRun ≠ .error .overread := by
    intro now interval firstRun
    unfold catchUp
    dsimp only
    split <;> simp
  unfold Relb.taskOf
  dsimp only
  split
  · simp
  · split
    · simp
    · split
      · split
        · exact fun h => hcatchUp _ _ _ (of_map_eq_error h)
        · simp
      · simp

/-- What a line reads behind its NUL it reads as a server. -/
theorem processConfigLine_overread_iff {l : ConfigLine} :
    AppConfig.processConfigLine env c l = .error .overread ↔
      ∃ s, l.text = "server:".toList ++ s ∧ ∀ x ∈ s, isHostEnd x = false := by
  constructor
  · intro h
    unfold AppConfig.processConfigLine at h
    dsimp only at h
    split at h
    · cases h
    · generalize (c.processBind env l.text).processAlsobind env l.text = c₁ at h
      cases hserver : c₁.processServer env l.text with
      | error fault =>
          rw [hserver] at h
          obtain rfl := Except.error.inj h
          unfold AppConfig.processServer at hserver
          cases htag : afterTag "server:" l.text with
          | none => rw [htag] at hserver; cases hserver
          | some s =>
              rw [htag] at hserver
              have hfault := serverOf_error_iff.mp (of_map_eq_error hserver)
              exact ⟨s, eq_of_afterTag htag, hfault.2⟩
      | ok c₂ =>
          -- behind the server only a task can fault, and not like that
          rw [hserver, ok_bind] at h
          generalize ((c₂.processRetry l.text).processFilter env l.text).processAdmin env l.text
            = c₃ at h
          cases htask : c₃.processTask env l.clock l.text with
          | ok c₄ => rw [htask] at h; cases h
          | error fault =>
              rw [htask] at h
              obtain rfl := Except.error.inj h
              unfold AppConfig.processTask at htask
              cases htag : afterTag "task:" l.text with
              | none => rw [htag] at htask; cases htask
              | some s =>
                  rw [htag] at htask
                  exact absurd (of_map_eq_error htask) taskOf_ne_overread
  · rintro ⟨s, htext, hs⟩
    obtain ⟨text, clock⟩ := l
    obtain rfl : text = _ := htext
    rw [AppConfig.processConfigLine_server, AppConfig.processServer, afterTag_self]
    dsimp only
    rw [serverOf_error_iff.mpr ⟨rfl, hs⟩]
    rfl

/-- A line is read within its bounds, unless it is a server without a port. -/
theorem reads_within_line_iff (env : Env) (c : AppConfig) (line : ConfigLine) :
    processConfigLine env c line ≠ .error .overread ↔
      ∀ s, line.text = "server:".toList ++ s → ',' ∈ s ∨ ':' ∈ s := by
  have hends : ∀ s : List Char, (∀ x ∈ s, isHostEnd x = false) ↔ ¬(',' ∈ s ∨ ':' ∈ s) := by
    intro s
    simp only [isHostEnd, Bool.or_eq_false_iff, beq_eq_false_iff_ne]
    constructor
    · rintro h (hs | hs)
      · exact (h _ hs).1 rfl
      · exact (h _ hs).2 rfl
    · intro h x hx
      constructor
      · rintro rfl
        exact h (.inl hx)
      · rintro rfl
        exact h (.inr hx)
  rw [processConfigLine_eq, ne_eq, processConfigLine_overread_iff]
  simp only [hends, not_exists, not_and, not_not]

/-- The line ends behind the host, and the port is read from behind its NUL. -/
theorem server_without_port_overread :
    processConfigLine ConfigLine.Sample.quadEnv (.create "") ⟨"server: 10.0.0.1".toList, ⟨0, 0⟩⟩ =
      .error .overread := by
  rw [processConfigLine_eq]
  exact processConfigLine_overread_iff.mpr ⟨" 10.0.0.1".toList, rfl, by simp [isHostEnd]⟩

end ConfigText

end Relb
