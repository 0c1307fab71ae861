import Relb.Lib.Cursor
import Relb.Lib.Keyed
import Relb.Proofs.ConfigLines
import Relb.Proofs.Narrowing
/-!
# Numbers and addresses in a line

A number is written in decimal and an address as a dotted quad. `atoi` reads a number back from in
front of anything but another digit. A line that starts with one tag is only changed by this one.
-/

namespace Relb

open Lib

variable {s rest : List Char} {n : Nat}

theorem ok_bind {α β : Type} (a : α) (f : α → Except Fault β) : (Except.ok a >>= f) = f a := rfl

theorem of_map_eq_error {α β : Type} {x : Except Fault α} {f : α → β} {fault : Fault}
    (h : x.map f = .error fault) : x = .error fault := by
  cases x with
  | ok a => cases h
  | error e => exact congrArg _ (Except.error.inj h)

/-! ## Numbers -/

def decimal (n : Nat) : List Char := Nat.toDigits 10 n

theorem isDigit_of_mem_decimal {c : Char} (h : c ∈ decimal n) : c.isDigit = true :=
  Nat.isDigit_of_mem_toDigits (by decide) (by decide) h

theorem ne_of_isDigit {c d : Char} (h : c.isDigit = true) (hd : d.isDigit = false) : c ≠ d := by
  rintro rfl
  rw [h] at hd
  cases hd

/-- The rest of a line does not go on with a digit. -/
def EndsNumber (rest : List Char) : Prop := ∀ c ∈ rest.head?, c.isDigit = false

theorem endsNumber_nil : EndsNumber [] := by
  intro c hc
  cases hc

theorem endsNumber_cons {c : Char} (hc : c.isDigit = false) : EndsNumber (c :: rest) := by
  intro d hd
  rwa [← Option.some.inj hd]

theorem takeWhile_digits {digits : List Char} (hdigits : ∀ c ∈ digits, c.isDigit = true)
    (hrest : EndsNumber rest) : (digits ++ rest).takeWhile Char.isDigit = digits := by
  rw [List.takeWhile_append_of_pos hdigits]
  cases rest with
  | nil => simp
  | cons c rest => rw [List.takeWhile_cons_of_neg (by simp [hrest c rfl]), List.append_nil]

theorem leadingNumber_digits {digits : List Char} (hdigits : ∀ c ∈ digits, c.isDigit = true)
    (hrest : EndsNumber rest) : leadingNumber (digits ++ rest) = Nat.ofDigitChars 10 digits 0 := by
  rw [leadingNumber, takeWhile_digits hdigits hrest]
  rfl

theorem leadingNumber_decimal (n : Nat) (hrest : EndsNumber rest) :
    leadingNumber (decimal n ++ rest) = n := by
  rw [leadingNumber_digits (fun c hc => isDigit_of_mem_decimal hc) hrest]
  exact Nat.ofDigitChars_ten_toDigits

theorem isSpace_of_isDigit {c : Char} (h : c.isDigit = true) : isSpace c = false := by
  have hle : ∀ a b : Char, a ≤ b ↔ a.toNat ≤ b.toNat := fun _ _ => Iff.rfl
  have hlow : 48 ≤ c.toNat :=
    UInt32.le_iff_toNat_le.mp (of_decide_eq_true (Bool.and_eq_true_iff.mp h).1)
  have hblank : c ≠ ' ' := by
    rintro rfl
    cases h
  simp only [isSpace, beq_eq_false_iff_ne.mpr hblank, Bool.false_or, Bool.and_eq_false_iff,
    decide_eq_false_iff_not, hle]
  exact .inr (by simp; omega)

theorem atoi_digits {digits : List Char} (hdigits : ∀ c ∈ digits, c.isDigit = true)
    (hne : digits ≠ []) (hlt : Nat.ofDigitChars 10 digits 0 < 2 ^ 31) (hrest : EndsNumber rest) :
    atoi (digits ++ rest) = Nat.ofDigitChars 10 digits 0 := by
  have hvalue := leadingNumber_digits hdigits hrest
  obtain ⟨c, digits, rfl⟩ := List.exists_cons_of_ne_nil hne
  have hc : c.isDigit = true := hdigits c List.mem_cons_self
  have hstart : (c :: digits ++ rest).dropWhile isSpace = c :: (digits ++ rest) :=
    List.dropWhile_cons_of_neg (by simp [isSpace_of_isDigit hc])
  unfold atoi
  rw [hstart]
  split
  · rename_i heq
    obtain ⟨rfl, -⟩ := List.cons.inj heq
    cases hc
  · rename_i heq
    obtain ⟨rfl, -⟩ := List.cons.inj heq
    cases hc
  · dsimp only
    rw [← List.cons_append, hvalue, toInt_of_lt] <;> omega

theorem decimal_ne_nil (n : Nat) : decimal n ≠ [] := Nat.toDigits_ne_nil

theorem atoi_decimal (hn : n < 2 ^ 31) (hrest : EndsNumber rest) :
    atoi (decimal n ++ rest) = n := by
  have hvalue : Nat.ofDigitChars 10 (decimal n) 0 = n := Nat.ofDigitChars_ten_toDigits
  rw [atoi_digits (fun c hc => isDigit_of_mem_decimal hc) (decimal_ne_nil n) (by omega) hrest,
    hvalue]

theorem leadingNumber_field {c : Char} (hc : c.isDigit = false) (field rest : List Char) :
    leadingNumber (field ++ c :: rest) = leadingNumber field := by
  unfold leadingNumber
  rw [List.takeWhile_append]
  split
  · rename_i hall
    have hfield : field.takeWhile Char.isDigit = field :=
      (List.takeWhile_prefix Char.isDigit).eq_of_length hall
    rw [List.takeWhile_cons_of_neg (by simp [hc]), List.append_nil, hfield]
  · rfl

theorem atoi_field {c : Char} (hdigit : c.isDigit = false) (hminus : c ≠ '-') (hplus : c ≠ '+')
    {field : List Char} (hstart : (field ++ c :: rest).dropWhile isSpace =
      field.dropWhile isSpace ++ c :: rest) : atoi (field ++ c :: rest) = atoi field := by
  unfold atoi
  rw [hstart]
  cases field.dropWhile isSpace with
  | nil =>
      have hnone : leadingNumber (c :: rest) = leadingNumber [] :=
        leadingNumber_field hdigit [] rest
      rw [List.nil_append]
      simp [hminus, hplus, hnone]
  | cons d digits =>
      have hnumber := leadingNumber_field hdigit (d :: digits) rest
      rw [List.cons_append] at hnumber ⊢
      by_cases hsign : d = '-' ∨ d = '+'
      · rcases hsign with rfl | rfl
        · simp [leadingNumber_field hdigit]
        · simp [leadingNumber_field hdigit]
      · push Not at hsign
        simp [hsign, hnumber]

theorem toNat_ofInt (n : Int) : ((UInt16.ofInt n).toNat : Int) = n % 2 ^ 16 := by
  unfold UInt16.ofInt
  rw [UInt16.toNat_ofNat']
  omega

theorem ofInt_toNat (port : UInt16) : UInt16.ofInt port.toNat = port := by
  have hvalue := toNat_ofInt port.toNat
  have hlt := port.toNat_lt
  exact UInt16.toNat_inj.mp (by omega)

theorem length_decimal_le (hn : n < 100) : (decimal n).length ≤ 2 :=
  (Nat.length_toDigits_le_iff (by decide) (by decide)).mpr hn

theorem afterChar_field {c : Char} {field : List Char} (hfield : ∀ d ∈ field, d ≠ c)
    (rest : List Char) : afterChar c (field ++ c :: rest) = rest := by
  unfold afterChar
  rw [List.dropWhile_append_of_pos fun d hd => decide_eq_true (hfield d hd),
    List.dropWhile_cons_of_neg (by simp), List.drop_one, List.tail_cons]

theorem skipBlanks_append {blanks t : List Char} (hblanks : ∀ c ∈ blanks, isBlank c = true)
    (ht : ∀ c ∈ t.head?, isBlank c = false) : skipBlanks (blanks ++ t) = t := by
  unfold skipBlanks
  rw [List.dropWhile_append_of_pos hblanks]
  cases t with
  | nil => rfl
  | cons c t => exact List.dropWhile_cons_of_neg (by simp [ht c rfl])

/-! ## Addresses -/

def IpAddress.text (ip : IpAddress) : List Char :=
  decimal ip.data0.toNat ++ '.' :: (decimal ip.data1.toNat ++ '.' ::
    (decimal ip.data2.toNat ++ '.' :: decimal ip.data3.toNat))

theorem IpAddress.mem_text {ip : IpAddress} {c : Char} (h : c ∈ ip.text) :
    c.isDigit = true ∨ c = '.' := by
  simp only [text, List.mem_append, List.mem_cons] at h
  rcases h with h | rfl | h | rfl | h | rfl | h
  all_goals first | exact .inr rfl | exact .inl (isDigit_of_mem_decimal h)

theorem IpAddress.two_lt_length_text (ip : IpAddress) : 2 < ip.text.length := by
  simp only [text, List.length_append, List.length_cons]
  omega

namespace ConfigLine.Sample

def quad (s : List Char) : IpAddress :=
  let s₁ := afterChar '.' s
  let s₂ := afterChar '.' s₁
  let s₃ := afterChar '.' s₂
  ⟨.ofNat (leadingNumber s), .ofNat (leadingNumber s₁), .ofNat (leadingNumber s₂),
    .ofNat (leadingNumber s₃)⟩

theorem quad_text (ip : IpAddress) : quad ip.text = ip := by
  have hdot : ∀ (n : Nat) (rest : List Char), afterChar '.' (decimal n ++ '.' :: rest) = rest := by
    intro n rest
    refine afterChar_field (fun d hd => ?_) rest
    rintro rfl
    cases isDigit_of_mem_decimal hd
  have hvalue : ∀ n rest, leadingNumber (decimal n ++ '.' :: rest) = n := fun n rest =>
    leadingNumber_decimal n (endsNumber_cons rfl)
  have hlast : ∀ n, leadingNumber (decimal n) = n := by
    intro n
    simpa using leadingNumber_decimal n endsNumber_nil
  unfold quad IpAddress.text
  simp only [hdot, hvalue, hlast, UInt8.ofNat_toNat]

def quadEnv : Env where
  phostbyname name := if name.all fun c => c.isDigit || c == '.' then quad name else ipnone
  checkIpBindable _ := true
  checkIpPortBindable _ _ := true
  isvalid _ := true
  encodedate _ _ _ := 0
  encodetime _ _ _ := 0
  decodedate _ := (1970, 1, 1)

theorem phostbyname_text (ip : IpAddress) : quadEnv.phostbyname ip.text = ip := by
  have hquad : ip.text.all (fun c => c.isDigit || c == '.') = true :=
    List.all_eq_true.mpr fun c hc => by simpa using IpAddress.mem_text hc
  change (if _ then quad ip.text else ipnone) = ip
  rw [if_pos hquad, quad_text]

def oneBind : AppConfig := { AppConfig.create "" with bind := [⟨[], [], [], []⟩] }

end ConfigLine.Sample

/-! ## Tags -/

theorem afterTag_self (tag : String) (s : List Char) : afterTag tag (tag.toList ++ s) = some s := by
  unfold afterTag startsWith
  rw [if_pos (List.isPrefixOf_iff_prefix.mpr (List.prefix_append _ _)), List.drop_left]

theorem eq_of_afterTag {tag : String} {s rest : List Char} (h : afterTag tag s = some rest) :
    s = tag.toList ++ rest := by
  obtain ⟨t, rfl⟩ := ConfigLine.afterTag_isSome (by rw [h]; rfl)
  rw [afterTag_self] at h
  rw [Option.some.inj h]

/-- The tags, in the order of `processConfigLine`. -/
def tags : List String :=
  ["bind:", "alsobind:", "server:", "retryserver:", "filter:", "admin:", "task:", "conperthread:"]

theorem afterTag_other {tag other : String} (htag : tag ∈ tags) (hother : other ∈ tags)
    (hne : other ≠ tag) (s : List Char) : afterTag other (tag.toList ++ s) = none := by
  have hapart : tags.all fun tag => tags.all fun other =>
      other == tag || !other.toList.isPrefixOf tag.toList := by decide +kernel
  have hnot : ∀ a ∈ tags, ∀ b ∈ tags, b ≠ a → ¬b.toList <+: a.toList := by
    intro a ha b hb hne hprefix
    have h := List.all_eq_true.mp (List.all_eq_true.mp hapart a ha) b hb
    simp [hne, List.isPrefixOf_iff_prefix.mpr hprefix] at h
  unfold afterTag startsWith
  rw [if_neg]
  intro hprefix
  rcases List.prefix_or_prefix_of_prefix (List.isPrefixOf_iff_prefix.mp hprefix)
    (List.prefix_append tag.toList s) with hle | hle
  · exact hnot tag htag other hother hne hle
  · exact hnot other hother tag htag hne.symm hle

theorem startsOnly (tag : String) (htag : tag ∈ tags) (s : List Char) :
    (¬((tag.toList ++ s).head? = some '/' ∨ (tag.toList ++ s).head? = some ';' ∨
        (tag.toList ++ s).head? = some '#')) ∧
      ∀ other ∈ tags, other ≠ tag → afterTag other (tag.toList ++ s) = none := by
  refine ⟨?_, fun other hother hne => afterTag_other htag hother hne s⟩
  simp only [tags, List.mem_cons, List.not_mem_nil, or_false] at htag
  rcases htag with rfl | rfl | rfl | rfl | rfl | rfl | rfl | rfl <;> simp

namespace AppConfig

variable (env : Env) (c : AppConfig) (clock : Clock) (s : List Char)

theorem onLastBind_append {c : AppConfig} {before : List BindConf} {b : BindConf}
    (hbind : c.bind = before ++ [b]) (f : BindConf → BindConf) :
    c.onLastBind f = { c with bind := before ++ [f b] } := by
  unfold onLastBind
  rw [if_pos (by simp [hbind]), hbind, List.length_append, List.length_singleton,
    Nat.add_sub_cancel, modify_append_cons]

/-! ### A tag does nothing to the lines of others -/

section Other

variable {env c clock s}

@[simp] theorem processBind_other (h : afterTag "bind:" s = none) : c.processBind env s = c := by
  rw [processBind, h]
  rfl

@[simp] theorem processAlsobind_other (h : afterTag "alsobind:" s = none) :
    c.processAlsobind env s = c := by
  rw [processAlsobind, h]
  rfl

@[simp] theorem processServer_other (h : afterTag "server:" s = none) :
    c.processServer env s = .ok c := by rw [processServer, h]

@[simp] theorem processRetry_other (h : afterTag "retryserver:" s = none) :
    c.processRetry s = c := by rw [processRetry, h]

@[simp] theorem processFilter_other (h : afterTag "filter:" s = none) :
    c.processFilter env s = c := by
  rw [processFilter, h]
  rfl

@[simp] theorem processAdmin_other (h : afterTag "admin:" s = none) :
    c.processAdmin env s = c := by
  rw [processAdmin, h]
  rfl

@[simp] theorem processTask_other (h : afterTag "task:" s = none) :
    c.processTask env clock s = .ok c := by rw [processTask, h]

@[simp] theorem processConnectionsPerThread_other (h : afterTag "conperthread:" s = none) :
    c.processConnectionsPerThread s = c := by rw [processConnectionsPerThread, h]

end Other

/-! ### A line does what its tag does -/

theorem processConfigLine_bind :
    processConfigLine env c ⟨"bind:".toList ++ s, clock⟩ =
      .ok (c.processBind env ("bind:".toList ++ s)) := by
  obtain ⟨hcomment, hother⟩ := startsOnly "bind:" (by decide +kernel) s
  generalize "bind:".toList ++ s = t at *
  simp only [tags, List.forall_mem_cons] at hother
  simp [processConfigLine, hcomment, hother]
  rfl

theorem processConfigLine_alsobind :
    processConfigLine env c ⟨"alsobind:".toList ++ s, clock⟩ =
      .ok (c.processAlsobind env ("alsobind:".toList ++ s)) := by
  obtain ⟨hcomment, hother⟩ := startsOnly "alsobind:" (by decide +kernel) s
  generalize "alsobind:".toList ++ s = t at *
  simp only [tags, List.forall_mem_cons] at hother
  simp [processConfigLine, hcomment, hother]
  rfl

theorem processConfigLine_server :
    processConfigLine env c ⟨"server:".toList ++ s, clock⟩ =
      c.processServer env ("server:".toList ++ s) := by
  obtain ⟨hcomment, hother⟩ := startsOnly "server:" (by decide +kernel) s
  generalize "server:".toList ++ s = t at *
  simp only [tags, List.forall_mem_cons] at hother
  simp [processConfigLine, hcomment, hother]
  cases c.processServer env t <;> rfl

theorem processConfigLine_retry :
    processConfigLine env c ⟨"retryserver:".toList ++ s, clock⟩ =
      .ok (c.processRetry ("retryserver:".toList ++ s)) := by
  obtain ⟨hcomment, hother⟩ := startsOnly "retryserver:" (by decide +kernel) s
  generalize "retryserver:".toList ++ s = t at *
  simp only [tags, List.forall_mem_cons] at hother
  simp [processConfigLine, hcomment, hother]
  rfl

theorem processConfigLine_filter :
    processConfigLine env c ⟨"filter:".toList ++ s, clock⟩ =
      .ok (c.processFilter env ("filter:".toList ++ s)) := by
  obtain ⟨hcomment, hother⟩ := startsOnly "filter:" (by decide +kernel) s
  generalize "filter:".toList ++ s = t at *
  simp only [tags, List.forall_mem_cons] at hother
  simp [processConfigLine, hcomment, hother]
  rfl

theorem processConfigLine_admin :
    processConfigLine env c ⟨"admin:".toList ++ s, clock⟩ =
      .ok (c.processAdmin env ("admin:".toList ++ s)) := by
  obtain ⟨hcomment, hother⟩ := startsOnly "admin:" (by decide +kernel) s
  generalize "admin:".toList ++ s = t at *
  simp only [tags, List.forall_mem_cons] at hother
  simp [processConfigLine, hcomment, hother]
  rfl

theorem processConfigLine_task :
    processConfigLine env c ⟨"task:".toList ++ s, clock⟩ =
      c.processTask env clock ("task:".toList ++ s) := by
  obtain ⟨hcomment, hother⟩ := startsOnly "task:" (by decide +kernel) s
  generalize "task:".toList ++ s = t at *
  simp only [tags, List.forall_mem_cons] at hother
  simp [processConfigLine, hcomment, hother]
  rfl

end AppConfig

end Relb
