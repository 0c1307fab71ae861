import Relb.Proofs.ConfigFields
/-!
# Servers in a line

The index stands on the first digit of the port when the parser goes on to the weight, and the same
step leads to the next value or stays at the end of the line. So a server is read back with any
number of its values, and those that are left out are zero.
-/

namespace Relb

open Lib

open ConfigLine.Sample (quadEnv oneBind)

variable {env : Env} {c : AppConfig} {s rest : List Char} {n : Nat}

def isValueEnd (x : Char) : Bool := x == ',' || x == ' '

theorem nextField_cut {value : List Char} (h : Cut isValueEnd s value rest) :
    nextField s = rest := by
  have hends : (fun x : Char => decide (x ≠ ',') && decide (x ≠ ' ')) = (!isValueEnd ·) := by
    funext x
    simp [isValueEnd, beq_eq_decide]
  unfold nextField
  rw [hends, h.drop_dropWhile_eq]

theorem isValueEnd_of_isDigit {x : Char} (h : x.isDigit = true) : isValueEnd x = false := by
  have hcomma : x ≠ ',' := by
    rintro rfl
    cases h
  have hblank : x ≠ ' ' := by
    rintro rfl
    cases h
  simp [isValueEnd, hcomma, hblank]

/-! ## The values -/

inductive ServerTail
  | none
  | weight (weight : Nat)
  | limit (weight maxConnections : Nat)

namespace ServerTail

def text : ServerTail → List Char
  | none => []
  | weight w => ',' :: decimal w
  | limit w m => ',' :: (decimal w ++ ',' :: decimal m)

/-- A value that is left out is zero. -/
def weightValue : ServerTail → Nat
  | none => 0
  | weight w => w
  | limit w _ => w

def maxConnectionsValue : ServerTail → Nat
  | none => 0
  | weight _ => 0
  | limit _ m => m

theorem read (tail : ServerTail) (hweight : tail.weightValue < 2 ^ 31)
    (hmax : tail.maxConnectionsValue < 2 ^ 31) {digits : List Char}
    (hdigits : ∀ x ∈ digits, x.isDigit = true) :
    atoi (nextField (digits ++ tail.text)) = tail.weightValue ∧
      atoi (nextField (nextField (digits ++ tail.text))) = tail.maxConnectionsValue := by
  have hends : ∀ x ∈ digits, isValueEnd x = false :=
    fun x hx => isValueEnd_of_isDigit (hdigits x hx)
  have hdecimal : ∀ (n : Nat), ∀ x ∈ decimal n, isValueEnd x = false :=
    fun n x hx => isValueEnd_of_isDigit (isDigit_of_mem_decimal hx)
  have hnumber : ∀ {n : Nat}, n < 2 ^ 31 → atoi (decimal n) = n := by
    intro n hn
    simpa using atoi_decimal hn endsNumber_nil
  cases tail with
  | none =>
      rw [text, List.append_nil, nextField_cut (.last hends)]
      exact ⟨rfl, rfl⟩
  | weight w =>
      rw [text, nextField_cut (.ended hends rfl), nextField_cut (.last (hdecimal w))]
      exact ⟨hnumber hweight, rfl⟩
  | limit w m =>
      rw [text, nextField_cut (.ended hends rfl), nextField_cut (.ended (hdecimal w) rfl)]
      exact ⟨atoi_decimal hweight (endsNumber_cons rfl), hnumber hmax⟩

theorem endsNumber_text (tail : ServerTail) : EndsNumber tail.text := by
  cases tail with
  | none => exact endsNumber_nil
  | weight w => exact endsNumber_cons rfl
  | limit w m => exact endsNumber_cons rfl

end ServerTail

/-! ## Round trip -/

/-- What `serverOf` reads of a text whose host and port are known. -/
theorem serverOf_fields {blanks host : List Char} (hblanks : ∀ x ∈ blanks, isBlank x = true)
    (hne : host ≠ []) (hhost : ∀ x ∈ host, isBlank x = false ∧ isHostEnd x = false)
    (hresolved : env.phostbyname host ≠ ipnone) {port : UInt16} (hport : port ≠ 0)
    (tail : ServerTail) (hweight : tail.weightValue < 2 ^ 31)
    (hmax : tail.maxConnectionsValue < 2 ^ 31) :
    serverOf env (blanks ++ (host ++ ':' :: (decimal port.toNat ++ tail.text))) =
      .ok (some ⟨env.phostbyname host, port, tail.weightValue, tail.maxConnectionsValue⟩) := by
  have hhead : ∀ x ∈ (host ++ ':' :: (decimal port.toNat ++ tail.text)).head?,
      isBlank x = false := by
    intro x hx
    rw [List.head?_append_of_ne_nil _ hne] at hx
    exact (hhost x (List.mem_of_head? hx)).1
  have hends : ∀ x ∈ host, isHostEnd x = false := fun x hx => (hhost x hx).2
  have hvalue : UInt16.ofInt (atoi (decimal port.toNat ++ tail.text)) = port := by
    rw [atoi_decimal (port.toNat_lt.trans (by decide)) tail.endsNumber_text]
    exact ofInt_toNat port
  -- the index moves on by one digit of the port
  obtain ⟨digit, digits, hdecimal⟩ := List.exists_cons_of_ne_nil (decimal_ne_nil port.toNat)
  have hdigits : ∀ x ∈ digits, x.isDigit = true := fun x hx =>
    isDigit_of_mem_decimal (n := port.toNat) (by simp [hdecimal, hx])
  obtain ⟨hreadWeight, hreadMax⟩ := tail.read hweight hmax hdigits
  unfold serverOf
  dsimp only
  rw [skipBlanks_append hblanks hhead, takeWhile_field hends rfl, dropWhile_field hends rfl,
    advance, ok_bind, hvalue, hdecimal, List.cons_append, List.drop_one, List.tail_cons,
    hreadWeight, hreadMax, if_pos ⟨hresolved, hport⟩]
  rfl

namespace AppConfig

/-- A server is read as it is written, by the last bind. -/
theorem server_round_trip {before : List BindConf} {b : BindConf} (hbind : c.bind = before ++ [b])
    (clock : Clock) {blanks host : List Char} (hblanks : ∀ x ∈ blanks, isBlank x = true)
    (hne : host ≠ []) (hhost : ∀ x ∈ host, isBlank x = false ∧ isHostEnd x = false)
    (hresolved : env.phostbyname host ≠ ipnone) {port : UInt16} (hport : port ≠ 0)
    (tail : ServerTail) (hweight : tail.weightValue < 2 ^ 31)
    (hmax : tail.maxConnectionsValue < 2 ^ 31) :
    c.processConfigLine env
        ⟨"server:".toList ++ (blanks ++ (host ++ ':' :: (decimal port.toNat ++ tail.text))),
          clock⟩ =
      .ok { c with
        bind := before ++
          [{ b with
            dst := b.dst ++ [⟨env.phostbyname host, port, tail.weightValue,
              tail.maxConnectionsValue⟩] }] } := by
  rw [processConfigLine_server, processServer, afterTag_self]
  dsimp only
  rw [serverOf_fields hblanks hne hhost hresolved hport tail hweight hmax]
  exact congrArg Except.ok (onLastBind_append hbind _)

/-- A tab in front, and a weight. -/
theorem server_round_trip_sample :
    oneBind.processConfigLine quadEnv
        ⟨"server:\t10.0.0.1:80,5".toList, ⟨0, 0⟩⟩ =
      .ok { oneBind with bind := [⟨[], [⟨⟨10, 0, 0, 1⟩, 80, 5, 0⟩], [], []⟩] } := by
  have hbind : oneBind.bind = [] ++ [⟨[], [], [], []⟩] := rfl
  have hblanks : ∀ x ∈ "\t".toList, isBlank x = true := by simp [isBlank]
  have hhost : ∀ x ∈ "10.0.0.1".toList, isBlank x = false ∧ isHostEnd x = false := by
    simp [isBlank, isHostEnd]
  have hport : (80 : UInt16) ≠ 0 := by decide
  have hresolved : quadEnv.phostbyname "10.0.0.1".toList ≠ ipnone := by decide +kernel
  exact server_round_trip hbind ⟨0, 0⟩ hblanks (by decide) hhost hresolved hport (.weight 5)
    (by decide) (by decide)

end AppConfig

end Relb
