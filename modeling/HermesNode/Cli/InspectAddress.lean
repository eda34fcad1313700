/-
Module: HermesNode.Cli.InspectAddress
Purpose: The address `--inspect` takes: nothing, a port, or a host and a port. A port on its own is
  looked at digit by digit. Behind a host it is whatever number the text starts with, and the host is
  stored before the port is looked at.
Trusted boundary: human-reviewed spec (transcribed from `tools/hermes-node/hermes-node.cpp`)
Main exports: parseInspectHostPort, Address, parseInspectHostPort_meets_iff
-/
import HermesNode.Cli.Config
import HermesNode.Lib.CString

namespace HermesNode.Cli

open CString

/-- The configuration, and the error where the address is refused. -/
def parseInspectHostPort (value : Bytes) (config : HermesNodeConfig) :
    HermesNodeConfig × Option Bytes :=
  if value.isEmpty then (config, none)
  else if value.all isDigit then
    let port := strtol value
    if port < 0 ∨ port > 65535 then
      (config, some (ascii "Error: invalid port number '" ++ value ++ ascii "'\n"))
    else ({ config with inspectPort := port }, none)
  else
    match strrchr 58 value with
    | none => (config, some (ascii "Error: invalid inspect address '" ++ value ++ ascii "'\n"))
    | some ([], _) =>
        (config, some (ascii "Error: invalid inspect address '" ++ value ++ ascii "'\n"))
    | some (host, portStr) =>
        let config := { config with inspectHost := host }
        if portStr.isEmpty then
          (config, some (ascii "Error: missing port in '" ++ value ++ ascii "'\n"))
        else
          let port := strtol portStr
          if port < 0 ∨ port > 65535 then
            (config, some (ascii "Error: invalid port number '" ++ portStr ++ ascii "'\n"))
          else ({ config with inspectPort := port }, none)

/-! ### What an address is -/

/-- The addresses, with the host and the port they name. -/
inductive Address : Bytes → Option Bytes → Option Nat → Prop where
  | nothing : Address [] none none
  | port {digits : Bytes} {n : Nat} (hdigits : IsDecimal digits n) (hle : n ≤ 65535) :
      Address digits none (some n)
  | hostPort {host digits : Bytes} {n : Nat} (hhost : host ≠ []) (hlast : 58 ∉ digits)
      (hdigits : IsDecimal digits n) (hle : n ≤ 65535) :
      Address (host ++ 58 :: digits) (some host) (some n)

/-- What the configuration becomes under an address. -/
def HermesNodeConfig.withAddress (config : HermesNodeConfig) (host : Option Bytes) (port : Option Nat) :
    HermesNodeConfig :=
  { config with
    inspectHost := host.getD config.inspectHost
    inspectPort := (port.map Int.ofNat).getD config.inspectPort }

/-- An address is accepted if it is one, and then sets what it names; else nothing changes. -/
structure Meets (value : Bytes) (config : HermesNodeConfig) : Prop where
  accepts : (parseInspectHostPort value config).2 = none ↔ ∃ host port, Address value host port
  sets : ∀ host port, Address value host port →
    (parseInspectHostPort value config).1 = config.withAddress host port
  keeps : (parseInspectHostPort value config).2 ≠ none → (parseInspectHostPort value config).1 = config

/-- A text starts with a number below 0 or beyond 65535. -/
def OutOfRange (text : Bytes) : Prop :=
  ∃ negative n, Nonempty (Reading text negative n) ∧ if negative then 0 < n else 65535 < n

/-- Behind the last colon, and a host, stands a port; or else nothing at all, or a number out of range,
and the host is the one that is already set. -/
def Faithful (value : Bytes) (config : HermesNodeConfig) : Prop :=
  ∀ host portStr, value = host ++ 58 :: portStr → host ≠ [] → 58 ∉ portStr →
    (∃ n, IsDecimal portStr n ∧ n ≤ 65535) ∨
      (config.inspectHost = host ∧ (portStr = [] ∨ OutOfRange portStr))

theorem outOfRange_iff {text : Bytes} : OutOfRange text ↔ strtol text < 0 ∨ strtol text > 65535 := by
  constructor
  · rintro ⟨negative, n, ⟨hreading⟩, hrange⟩
    rw [hreading.strtol_eq]
    cases negative with
    | true =>
        left
        rw [saturate_lt_iff (by decide) (by decide)]
        simp only [↓reduceIte] at hrange ⊢
        omega
    | false =>
        right
        refine (le_saturate_iff (k := 65536) (by decide) (by decide)).mpr ?_
        simp only [Bool.false_eq_true, ↓reduceIte] at hrange ⊢
        omega
  · intro hrange
    have hne : strtol text ≠ 0 := by omega
    rcases exists_reading hne with ⟨negative, n, ⟨hreading⟩⟩
    refine ⟨negative, n, ⟨hreading⟩, ?_⟩
    rw [hreading.strtol_eq] at hrange
    cases negative with
    | true =>
        simp only [↓reduceIte, saturate, LONG_MIN, LONG_MAX] at hrange ⊢
        omega
    | false =>
        simp only [Bool.false_eq_true, ↓reduceIte, saturate, LONG_MIN, LONG_MAX] at hrange ⊢
        omega

/-- A number in digits is in range if what `strtol` makes of it is, and that is the number then. -/
theorem strtol_port {digits : Bytes} {n : Nat} (h : IsDecimal digits n) :
    (n ≤ 65535 ∧ strtol digits = n ∧ ¬(strtol digits < 0 ∨ strtol digits > 65535)) ∨
      (65535 < n ∧ (strtol digits < 0 ∨ strtol digits > 65535)) := by
  rw [strtol_of_isDecimal h]
  simp only [saturate, LONG_MIN, LONG_MAX]
  omega

/-! ### The three kinds of text -/

variable {value : Bytes} {config : HermesNodeConfig}

theorem all_isDigit_of_isDecimal {n : Nat} (h : IsDecimal value n) : value.all isDigit = true :=
  List.all_eq_true.mpr h.2.1

theorem isDecimal_of_all (hne : value ≠ []) (h : value.all isDigit = true) :
    IsDecimal value (decimalValue value) := ⟨hne, List.all_eq_true.mp h, rfl⟩

theorem colon_not_mem_of_all (h : value.all isDigit = true) : 58 ∉ value := by
  intro hin
  exact absurd (List.all_eq_true.mp h 58 hin) (by decide)

theorem address_iff_of_no_colon (hne : value ≠ []) (hcolon : 58 ∉ value) {host : Option Bytes}
    {port : Option Nat} :
    Address value host port ↔ host = none ∧ ∃ n, port = some n ∧ IsDecimal value n ∧ n ≤ 65535 := by
  constructor
  · intro h
    cases h with
    | nothing => exact absurd rfl hne
    | port hdigits hle => exact ⟨rfl, _, rfl, hdigits, hle⟩
    | hostPort => simp at hcolon
  · rintro ⟨rfl, n, rfl, hdigits, hle⟩
    exact Address.port hdigits hle

/-- The last colon parts the host from the port. -/
theorem address_iff_of_cut {cutHost portStr : Bytes}
    (hcut : strrchr 58 value = some (cutHost, portStr)) {host : Option Bytes} {port : Option Nat} :
    Address value host port ↔
      host = some cutHost ∧ cutHost ≠ [] ∧ ∃ n, port = some n ∧ IsDecimal portStr n ∧ n ≤ 65535 := by
  rcases strrchr_eq_some_iff.mp hcut with ⟨hvalue, hlast⟩
  constructor
  · intro h
    cases h with
    | nothing => simp at hvalue
    | port hdigits _ =>
        have hnot := colon_not_mem_of_all (all_isDigit_of_isDecimal hdigits)
        simp [hvalue] at hnot
    | hostPort hhost hlast' hdigits hle =>
        rw [strrchr_append _ hlast'] at hcut
        cases hcut
        exact ⟨rfl, hhost, _, rfl, hdigits, hle⟩
  · rintro ⟨rfl, hhost, n, rfl, hdigits, hle⟩
    rw [hvalue]
    exact Address.hostPort hhost hlast hdigits hle

theorem faithful_of_no_colon (hcolon : 58 ∉ value) : Faithful value config := by
  rintro host portStr rfl
  simp at hcolon

theorem faithful_iff_of_cut {host portStr : Bytes} (hcut : strrchr 58 value = some (host, portStr))
    (hhost : host ≠ []) :
    Faithful value config ↔ (∃ n, IsDecimal portStr n ∧ n ≤ 65535) ∨
      (config.inspectHost = host ∧ (portStr = [] ∨ OutOfRange portStr)) := by
  rcases strrchr_eq_some_iff.mp hcut with ⟨hvalue, hlast⟩
  constructor
  · intro h
    exact h host portStr hvalue hhost hlast
  · intro h host' portStr' hvalue' _ hlast'
    rw [hvalue', strrchr_append _ hlast'] at hcut
    cases hcut
    exact h

/-! ### Where the address is read faithfully -/

theorem address_nil {host : Option Bytes} {port : Option Nat} (h : Address [] host port) :
    host = none ∧ port = none := by
  generalize hvalue : ([] : Bytes) = value at h
  cases h with
  | nothing => exact ⟨rfl, rfl⟩
  | port hdigits _ => exact absurd hvalue.symm hdigits.1
  | hostPort => simp at hvalue

theorem meets_nil : Meets [] config where
  accepts := ⟨fun _ => ⟨none, none, Address.nothing⟩, fun _ => rfl⟩
  sets host port h := by
    rcases address_nil h with ⟨rfl, rfl⟩
    rfl
  keeps _ := rfl

theorem meets_of_refused {error : Bytes} (hparse : parseInspectHostPort value config = (config, some error))
    (hnone : ¬∃ host port, Address value host port) : Meets value config where
  accepts := by
    rw [hparse]
    exact iff_of_false (Option.some_ne_none error) hnone
  sets host port h := absurd ⟨host, port, h⟩ hnone
  keeps _ := by rw [hparse]

/-- A port on its own is read as it should be. -/
theorem meets_digits (hne : value ≠ []) (hall : value.all isDigit = true) : Meets value config := by
  have hdecimal := isDecimal_of_all hne hall
  have hempty : value.isEmpty = false := List.isEmpty_eq_false_iff.mpr hne
  have haddress := @address_iff_of_no_colon value hne (colon_not_mem_of_all hall)
  rcases strtol_port hdecimal with ⟨hle, hport, hin⟩ | ⟨hgt, hout⟩
  · have hparse : parseInspectHostPort value config =
        ({ config with inspectPort := strtol value }, none) := by
      simp only [parseInspectHostPort, hempty, hall, if_neg hin]
      rfl
    constructor
    · rw [hparse]
      exact ⟨fun _ => ⟨none, _, haddress.mpr ⟨rfl, _, rfl, hdecimal, hle⟩⟩, fun _ => rfl⟩
    · intro host port h
      rcases haddress.mp h with ⟨rfl, n, rfl, ⟨-, -, rfl⟩, -⟩
      rw [hparse, hport]
      rfl
    · intro hrefused
      rw [hparse] at hrefused
      exact absurd rfl hrefused
  · have hparse : parseInspectHostPort value config =
        (config, some (ascii "Error: invalid port number '" ++ value ++ ascii "'\n")) := by
      simp only [parseInspectHostPort, hempty, hall, if_pos hout]
      rfl
    have hnone : ¬∃ host port, Address value host port := by
      rintro ⟨host, port, h⟩
      rcases haddress.mp h with ⟨-, n, -, ⟨-, -, rfl⟩, hle⟩
      omega
    exact meets_of_refused hparse hnone

theorem meets_iff_of_stored {host error : Bytes}
    (hparse : parseInspectHostPort value config = ({ config with inspectHost := host }, some error))
    (hnone : ¬∃ host port, Address value host port) :
    Meets value config ↔ config.inspectHost = host := by
  constructor
  · intro h
    have hkept := h.keeps (by rw [hparse]; exact Option.some_ne_none error)
    rw [hparse] at hkept
    rw [← hkept]
  · intro hhost
    have hsame : { config with inspectHost := host } = config := by rw [← hhost]
    exact meets_of_refused (hsame ▸ hparse) hnone

/-- Behind a host, the number the port starts with is stored, and before that the host. -/
theorem meets_iff_of_cut {host portStr : Bytes} (hcut : strrchr 58 value = some (host, portStr))
    (hhost : host ≠ []) :
    Meets value config ↔ (∃ n, IsDecimal portStr n ∧ n ≤ 65535) ∨
      (config.inspectHost = host ∧ (portStr = [] ∨ OutOfRange portStr)) := by
  have hvalue := (strrchr_eq_some_iff.mp hcut).1
  have hempty : value.isEmpty = false := by
    rw [hvalue]
    cases host <;> rfl
  have hall : value.all isDigit = false := by
    rw [hvalue]
    simp [show isDigit 58 = false from rfl]
  have haddress : (∃ host port, Address value host port) ↔ ∃ n, IsDecimal portStr n ∧ n ≤ 65535 := by
    constructor
    · rintro ⟨_, _, h⟩
      rcases (address_iff_of_cut hcut).mp h with ⟨-, -, n, -, hport⟩
      exact ⟨n, hport⟩
    · rintro ⟨n, hport⟩
      exact ⟨_, _, (address_iff_of_cut hcut).mpr ⟨rfl, hhost, n, rfl, hport⟩⟩
  by_cases hnone : portStr = []
  · -- the port is missing
    have hno : ¬∃ n, IsDecimal portStr n ∧ n ≤ 65535 := by
      rintro ⟨n, hdecimal, -⟩
      exact hdecimal.1 hnone
    have hparse : parseInspectHostPort value config =
        ({ config with inspectHost := host },
          some (ascii "Error: missing port in '" ++ value ++ ascii "'\n")) := by
      cases host with
      | nil => exact absurd rfl hhost
      | cons c host => simp [parseInspectHostPort, hempty, hall, hcut, hnone]
    rw [meets_iff_of_stored hparse (haddress.not.mpr hno), or_iff_right hno]
    simp [hnone]
  · have hfilled : portStr.isEmpty = false := List.isEmpty_eq_false_iff.mpr hnone
    by_cases hout : strtol portStr < 0 ∨ strtol portStr > 65535
    · -- the number is out of range
      have hno : ¬∃ n, IsDecimal portStr n ∧ n ≤ 65535 := by
        rintro ⟨n, hdecimal, hle⟩
        rcases strtol_port hdecimal with ⟨-, -, hin⟩ | ⟨hgt, -⟩
        · exact hin hout
        · omega
      have hparse : parseInspectHostPort value config =
          ({ config with inspectHost := host },
            some (ascii "Error: invalid port number '" ++ portStr ++ ascii "'\n")) := by
        cases host with
        | nil => exact absurd rfl hhost
        | cons c host =>
            simp only [parseInspectHostPort, hempty, hall, hcut, hfilled, if_pos hout]
            rfl
      rw [meets_iff_of_stored hparse (haddress.not.mpr hno), or_iff_right hno]
      simp [outOfRange_iff, hout]
    · -- the number is in range, whatever follows it
      have hparse : parseInspectHostPort value config =
          ({ config with inspectHost := host, inspectPort := strtol portStr }, none) := by
        cases host with
        | nil => exact absurd rfl hhost
        | cons c host =>
            simp only [parseInspectHostPort, hempty, hall, hcut, hfilled, if_neg hout]
            rfl
      constructor
      · intro h
        have haccepts := h.accepts
        rw [hparse] at haccepts
        exact Or.inl (haddress.mp (haccepts.mp rfl))
      · rintro (hport | ⟨-, hbad⟩)
        · constructor
          · rw [hparse]
            exact iff_of_true rfl (haddress.mpr hport)
          · intro host' port' h
            rcases (address_iff_of_cut hcut).mp h with ⟨rfl, -, n, rfl, hdecimal, hle⟩
            rcases strtol_port hdecimal with ⟨-, hnumber, -⟩ | ⟨-, habove⟩
            · rw [hparse, hnumber]
              rfl
            · exact absurd habove hout
          · intro hrefused
            rw [hparse] at hrefused
            exact absurd rfl hrefused
        · rw [outOfRange_iff] at hbad
          exact absurd hbad (by simp [hnone, hout])

/-- A text with its one colon in front is refused. -/
theorem meets_of_leading {portStr : Bytes} (hcut : strrchr 58 value = some ([], portStr)) :
    Meets value config := by
  have hvalue := (strrchr_eq_some_iff.mp hcut).1
  have hnone : ¬∃ host port, Address value host port := by
    rintro ⟨_, _, h⟩
    exact ((address_iff_of_cut hcut).mp h).2.1 rfl
  have hempty : value.isEmpty = false := by rw [hvalue]; rfl
  have hall : value.all isDigit = false := by rw [hvalue]; rfl
  have hparse : parseInspectHostPort value config =
      (config, some (ascii "Error: invalid inspect address '" ++ value ++ ascii "'\n")) := by
    simp [parseInspectHostPort, hempty, hall, hcut]
  exact meets_of_refused hparse hnone

theorem faithful_of_leading {portStr : Bytes} (hcut : strrchr 58 value = some ([], portStr)) :
    Faithful value config := by
  intro host portStr' hvalue hhost hlast
  rw [hvalue, strrchr_append _ hlast] at hcut
  simp only [Option.some.injEq, Prod.mk.injEq] at hcut
  exact absurd hcut.1 hhost

/-! ### Exactly when the address is read as the grammar says -/

/-- An address is accepted exactly when it is one, and nothing changes where it is refused, exactly
when behind a host there is a port, or nothing is misread and the host was set before. -/
theorem parseInspectHostPort_meets_iff (value : Bytes) (config : HermesNodeConfig) :
    Meets value config ↔ Faithful value config := by
  by_cases hne : value = []
  · subst hne
    exact iff_of_true meets_nil (faithful_of_no_colon (by simp))
  · cases hcut : strrchr 58 value with
    | none =>
        have hcolon := strrchr_eq_none_iff.mp hcut
        refine iff_of_true ?_ (faithful_of_no_colon hcolon)
        by_cases hall : value.all isDigit = true
        · exact meets_digits hne hall
        · have hnone : ¬∃ host port, Address value host port := by
            rintro ⟨host, port, h⟩
            rcases (address_iff_of_no_colon hne hcolon).mp h with ⟨-, n, -, hdecimal, -⟩
            exact hall (all_isDigit_of_isDecimal hdecimal)
          have hparse : parseInspectHostPort value config =
              (config, some (ascii "Error: invalid inspect address '" ++ value ++ ascii "'\n")) := by
            simp [parseInspectHostPort, hne, hall, hcut]
          exact meets_of_refused hparse hnone
    | some cut =>
        rcases cut with ⟨host, portStr⟩
        by_cases hhost : host = []
        · subst hhost
          exact iff_of_true (meets_of_leading hcut) (faithful_of_leading hcut)
        · rw [meets_iff_of_cut hcut hhost, faithful_iff_of_cut hcut hhost]

/-- A port with something behind it is accepted: `h:9x` sets the port 9. -/
theorem parseInspectHostPort_trailing : ¬ Meets (ascii "h:9x") {} := by
  intro h
  have haccepted : ∃ host port, Address (ascii "h:9x") host port := h.accepts.mp rfl
  rcases haccepted with ⟨host, port, haddress⟩
  have hcut : strrchr 58 (ascii "h:9x") = some (ascii "h", ascii "9x") := rfl
  rcases (address_iff_of_cut hcut).mp haddress with ⟨-, -, n, -, hdecimal, -⟩
  exact absurd (hdecimal.2.1 120 (by decide)) (by decide)

end HermesNode.Cli
