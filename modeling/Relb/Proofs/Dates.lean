import Relb.Proofs.ConfigFields
/-!
# Dates of first runs

`YYYYMMDD` is one number that is taken apart, and `YYYY/MM/DD` three numbers behind slashes. Either
way what is left of the line is what stands behind the date, from which the time is read.
-/

namespace Relb

open Lib

variable {env : Env} {clock : Clock} {year month day n : Nat} {tail : List Char}

/-! ## Digits -/

def twoDigits (n : Nat) : List Char := [(n / 10).digitChar, (n % 10).digitChar]

theorem isDigit_of_mem_twoDigits (hn : n < 100) {c : Char} (h : c ∈ twoDigits n) :
    c.isDigit = true := by
  simp only [twoDigits, List.mem_cons, List.not_mem_nil, or_false] at h
  rcases h with rfl | rfl
  · rw [Nat.isDigit_digitChar, decide_eq_true (by omega)]
  · rw [Nat.isDigit_digitChar, decide_eq_true (by omega)]

theorem ofDigitChars_twoDigits (hn : n < 100) (init : Nat) :
    Nat.ofDigitChars 10 (twoDigits n) init = 100 * init + n := by
  unfold twoDigits
  rw [Nat.ofDigitChars_cons_digitChar_of_lt_ten (by omega),
    Nat.ofDigitChars_cons_digitChar_of_lt_ten (by omega), Nat.ofDigitChars_nil]
  omega

theorem atoi_twoDigits (hn : n < 100) {rest : List Char} (hrest : EndsNumber rest) :
    atoi (twoDigits n ++ rest) = n := by
  have hvalue : Nat.ofDigitChars 10 (twoDigits n) 0 = n := by
    rw [ofDigitChars_twoDigits hn]
    omega
  rw [atoi_digits (fun c hc => isDigit_of_mem_twoDigits hn hc) (by simp [twoDigits]) (by omega)
    hrest, hvalue]

/-! ## The two formats -/

def compactDate (year month day : Nat) : List Char :=
  decimal year ++ (twoDigits month ++ twoDigits day)

def slashedDate (year month day : Nat) : List Char :=
  decimal year ++ '/' :: (twoDigits month ++ '/' :: twoDigits day)

example : compactDate 2025 3 9 = "20250309".toList := by decide

example : slashedDate 2025 3 9 = "2025/03/09".toList := by decide

/-- What the calendar and the text behind the date make of it. -/
def firstRunAt (env : Env) (clock : Clock) (year month day : Nat) (tail : List Char) : Datetime :=
  env.encodedate year month day - (clock.nowLocaltime - clock.nowUtc) + timeOf env (nextWord tail)

/-- Nothing, or something behind a space. -/
def EndsDate (tail : List Char) : Prop := ∀ c ∈ tail.head?, c = ' '

theorem EndsDate.endsNumber (h : EndsDate tail) : EndsNumber tail := by
  intro c hc
  rw [h c hc]
  rfl

theorem nextWord_append {word : List Char} (hword : ∀ c ∈ word, c ≠ ' ') (rest : List Char) :
    nextWord (word ++ rest) = nextWord rest := by
  unfold nextWord
  rw [List.dropWhile_append_of_pos fun c hc => decide_eq_true (hword c hc)]

section Format

variable (hyear : 1000 ≤ year ∧ year ≤ 9999) (hmonth : month < 100) (hday : day < 100)
  (htail : EndsDate tail)

include hyear hmonth hday htail

/-- One number, taken apart. -/
theorem firstRunOf_compactDate :
    firstRunOf env clock (compactDate year month day ++ tail) =
      firstRunAt env clock year month day tail := by
  have hdigit : ∀ c ∈ compactDate year month day, c.isDigit = true := by
    intro c hc
    simp only [compactDate, List.mem_append] at hc
    rcases hc with hc | hc | hc
    · exact isDigit_of_mem_decimal hc
    · exact isDigit_of_mem_twoDigits hmonth hc
    · exact isDigit_of_mem_twoDigits hday hc
  have hnumber : Nat.ofDigitChars 10 (compactDate year month day) 0 =
      10000 * year + 100 * month + day := by
    have hfirst : Nat.ofDigitChars 10 (decimal year) 0 = year := Nat.ofDigitChars_ten_toDigits
    unfold compactDate
    rw [Nat.ofDigitChars_append, Nat.ofDigitChars_append, hfirst, ofDigitChars_twoDigits hmonth,
      ofDigitChars_twoDigits hday]
    omega
  have hatoi : atoi (compactDate year month day ++ tail) =
      (10000 * year + 100 * month + day : Nat) := by
    rw [atoi_digits hdigit (by simp [compactDate, twoDigits]) (by omega) htail.endsNumber, hnumber]
  have hyearPart : ((10000 * year + 100 * month + day : Nat) : Int).tdiv 10000 = year := by
    rw [Int.tdiv_eq_ediv_of_nonneg (by omega)]
    omega
  have hmonthPart : (((10000 * year + 100 * month + day : Nat) : Int) - year * 10000).tdiv 100 =
      month := by
    rw [Int.tdiv_eq_ediv_of_nonneg (by omega)]
    omega
  have hdayPart : ((10000 * year + 100 * month + day : Nat) : Int) - year * 10000 - month * 100 =
      day := by omega
  unfold firstRunOf firstRunAt
  dsimp only
  rw [hatoi, if_neg (by omega), if_pos (by omega), hyearPart, hmonthPart, hdayPart,
    nextWord_append fun c hc => ne_of_isDigit (hdigit c hc) rfl]

theorem firstRunOf_slashedDate :
    firstRunOf env clock (slashedDate year month day ++ tail) =
      firstRunAt env clock year month day tail := by
  have hslash : EndsNumber ('/' :: (twoDigits month ++ '/' :: (twoDigits day ++ tail))) :=
    endsNumber_cons rfl
  have hdigits : ∀ c ∈ twoDigits day, c.isDigit = true := fun c hc =>
    isDigit_of_mem_twoDigits hday hc
  have hline : slashedDate year month day ++ tail =
      decimal year ++ '/' :: (twoDigits month ++ '/' :: (twoDigits day ++ tail)) := by
    simp [slashedDate]
  have hmonthText : afterChar '/' (slashedDate year month day ++ tail) =
      twoDigits month ++ '/' :: (twoDigits day ++ tail) := by
    rw [hline]
    exact afterChar_field (fun c hc => ne_of_isDigit (isDigit_of_mem_decimal hc) rfl) _
  have hdayText : afterChar '/' (twoDigits month ++ '/' :: (twoDigits day ++ tail)) =
      twoDigits day ++ tail :=
    afterChar_field (fun c hc => ne_of_isDigit (isDigit_of_mem_twoDigits hmonth hc) rfl) _
  have hatoi : atoi (slashedDate year month day ++ tail) = year := by
    rw [hline, atoi_decimal (by omega) hslash]
  unfold firstRunOf firstRunAt
  dsimp only
  rw [hatoi, if_neg (by omega), if_neg (by omega), hmonthText, hdayText,
    atoi_twoDigits hmonth (endsNumber_cons rfl), atoi_twoDigits hday htail.endsNumber,
    nextWord_append fun c hc => ne_of_isDigit (hdigits c hc) rfl]

end Format

/-! ## Words -/

structure IsWord (word : List Char) : Prop where
  ne_nil : word ≠ []
  isSpace : ∀ c ∈ word, isSpace c = false

instance : DecidablePred IsWord := fun word =>
  have : Decidable (∀ c ∈ word, isSpace c = false) := List.decidableBAll (isSpace · = false) word
  decidable_of_iff (word ≠ [] ∧ ∀ c ∈ word, isSpace c = false)
    ⟨fun h => ⟨h.1, h.2⟩, fun h => ⟨h.ne_nil, h.isSpace⟩⟩

section Word

variable {word rest : List Char}

theorem IsWord.ne_space (h : IsWord word) {c : Char} (hc : c ∈ word) : c ≠ ' ' := by
  rintro rfl
  cases h.isSpace ' ' hc

theorem IsWord.head_ne_space (h : IsWord word) (rest : List Char) :
    ∀ c ∈ (word ++ rest).head?, c ≠ ' ' := by
  obtain ⟨d, word, rfl⟩ := List.exists_cons_of_ne_nil h.ne_nil
  intro c hc
  obtain rfl := Option.some.inj hc
  exact h.ne_space List.mem_cons_self

theorem skipBlanks_word (hword : IsWord word) (rest : List Char) :
    skipBlanks (' ' :: (word ++ rest)) = word ++ rest := by
  have hblank : ∀ c ∈ [' '], isBlank c = true := fun c hc => List.mem_singleton.mp hc ▸ rfl
  apply skipBlanks_append hblank
  obtain ⟨d, word, rfl⟩ := List.exists_cons_of_ne_nil hword.ne_nil
  intro c hc
  obtain rfl := Option.some.inj hc
  have hspace : Relb.isSpace d = false := hword.isSpace d List.mem_cons_self
  have htab : d ≠ '\t' := by
    rintro rfl
    cases hspace
  simp [isBlank, hword.ne_space List.mem_cons_self, htab]

theorem nextWord_word (hword : IsWord word) (hrest : ∀ c ∈ rest.head?, c ≠ ' ') :
    nextWord (word ++ ' ' :: rest) = rest := by
  rw [nextWord_append fun c hc => hword.ne_space hc]
  unfold nextWord
  rw [List.dropWhile_cons_of_neg (by simp), List.dropWhile_cons_of_pos (by simp)]
  cases rest with
  | nil => rfl
  | cons c rest => exact List.dropWhile_cons_of_neg (by simpa using hrest c rfl)

theorem taskTypeOf_word (word rest : List Char) :
    taskTypeOf (word ++ ' ' :: rest) = taskTypeOf word := by
  unfold taskTypeOf startsWith
  rw [isPrefixOf_field (by decide), isPrefixOf_field (by decide), isPrefixOf_field (by decide)]

theorem atoi_word (hword : IsWord word) (rest : List Char) :
    atoi (word ++ ' ' :: rest) = atoi word := by
  apply atoi_field rfl (by decide) (by decide)
  obtain ⟨c, word, rfl⟩ := List.exists_cons_of_ne_nil hword.ne_nil
  have hc : ¬isSpace c = true := by simp [hword.isSpace c List.mem_cons_self]
  rw [List.cons_append, List.dropWhile_cons_of_neg hc, List.dropWhile_cons_of_neg hc,
    List.cons_append]

end Word

/-! ## Lines -/

/-- What stands behind the tag of a task with a first run. -/
def taskText (taskType interval first : List Char) : List Char :=
  ' ' :: (taskType ++ ' ' :: (interval ++ ' ' :: first))

def taskLine (taskType interval first : List Char) : List Char :=
  "task:".toList ++ taskText taskType interval first

/-- What is made of a task whose first run has been computed. -/
def taskAt (env : Env) (clock : Clock) (taskType interval : List Char) (firstRun : Datetime) :
    Except Fault (Option TaskInfo) :=
  if !env.isvalid firstRun then .ok none
  else if firstRun < clock.nowUtc then
    if 0 < atoi interval then
      (catchUp clock.nowUtc (atoi interval) firstRun).map fun next =>
        some ⟨taskTypeOf taskType, atoi interval, next, true⟩
    else .ok none
  else .ok (some ⟨taskTypeOf taskType, atoi interval, firstRun, true⟩)

section Line

variable {taskType interval first : List Char} {c : AppConfig}

theorem taskOf_taskText (htype : IsWord taskType) (hinterval : IsWord interval)
    (hfirst : ∃ d ∈ first.head?, d.isDigit = true) :
    taskOf env clock (taskText taskType interval first) =
      taskAt env clock taskType interval (firstRunOf env clock first) := by
  obtain ⟨d, hhead, hd⟩ := hfirst
  have hword : ∀ c ∈ first.head?, c ≠ ' ' := by
    rw [hhead]
    intro c hc
    obtain rfl := Option.some.inj hc
    exact ne_of_isDigit hd rfl
  have hsome : first ≠ [] := by
    rintro rfl
    cases hhead
  unfold taskOf taskText
  dsimp only
  rw [skipBlanks_word htype, nextWord_word htype (hinterval.head_ne_space _),
    nextWord_word hinterval hword, if_neg hsome, atoi_word hinterval, taskTypeOf_word]
  rfl

theorem processConfigLine_taskLine (htype : IsWord taskType) (hinterval : IsWord interval)
    (hfirst : ∃ d ∈ first.head?, d.isDigit = true) :
    c.processConfigLine env ⟨taskLine taskType interval first, clock⟩ =
      (taskAt env clock taskType interval (firstRunOf env clock first)).map fun
        | some task => c.onLastBind fun b => { b with tasks := b.tasks ++ [task] }
        | none => c := by
  unfold taskLine
  rw [AppConfig.processConfigLine_task, AppConfig.processTask, afterTag_self]
  exact congrArg (Except.map _) (taskOf_taskText htype hinterval hfirst)

theorem head_decimal (n : Nat) (rest : List Char) :
    ∃ d ∈ (decimal n ++ rest).head?, d.isDigit = true := by
  obtain ⟨d, digits, hdigits⟩ := List.exists_cons_of_ne_nil (decimal_ne_nil n)
  refine ⟨d, ?_, isDigit_of_mem_decimal (n := n) (by simp [hdigits])⟩
  rw [hdigits]
  rfl

/-- Both formats give the same configuration, or neither line is accepted. -/
theorem processConfigLine_dates (htype : IsWord taskType) (hinterval : IsWord interval)
    (hyear : 1000 ≤ year ∧ year ≤ 9999) (hmonth : month < 100) (hday : day < 100)
    (htail : EndsDate tail) :
    c.processConfigLine env
        ⟨taskLine taskType interval (compactDate year month day ++ tail), clock⟩ =
      c.processConfigLine env
        ⟨taskLine taskType interval (slashedDate year month day ++ tail), clock⟩ := by
  have hcompact : ∃ d ∈ (compactDate year month day ++ tail).head?, d.isDigit = true := by
    rw [compactDate, List.append_assoc]
    exact head_decimal year _
  have hslashed : ∃ d ∈ (slashedDate year month day ++ tail).head?, d.isDigit = true := by
    rw [slashedDate, List.append_assoc]
    exact head_decimal year _
  rw [processConfigLine_taskLine htype hinterval hcompact,
    processConfigLine_taskLine htype hinterval hslashed,
    firstRunOf_compactDate hyear hmonth hday htail, firstRunOf_slashedDate hyear hmonth hday htail]

/-- A purge every hour from a morning on. -/
theorem processConfigLine_dates_morning :
    ConfigLine.Sample.oneBind.processConfigLine ConfigLine.Sample.quadEnv
        ⟨taskLine "purge".toList "3600".toList (compactDate 2025 3 9 ++ " 08:00:00".toList),
          ⟨5, 5⟩⟩ =
      ConfigLine.Sample.oneBind.processConfigLine ConfigLine.Sample.quadEnv
        ⟨taskLine "purge".toList "3600".toList (slashedDate 2025 3 9 ++ " 08:00:00".toList),
          ⟨5, 5⟩⟩ :=
  processConfigLine_dates (by decide) (by decide) (by decide) (by decide) (by decide)
    fun _ hc => (Option.some.inj hc).symm

end Line

end Relb
