import Mathlib.Data.Rat.Floor
import Mathlib.Algebra.Order.Floor.Ring
import Civfix.FilingPhotos
import Civfix.Utf8Texts

/-! # How long a mail may be under way

The deadline of a send grows with the bytes of its message, and the guard that keeps a second packet from a jurisdiction
stays for a fixed time. The start-up check refuses a configuration whose largest deadline would outlive that guard. -/
namespace Civfix.OutboundDeadlines

open CodeUnits Utf8Texts
open FilingMail (OUTBOUND_PAYLOAD_BUDGET_BYTES base64Bytes messageBytes)

def OUTBOUND_SEND_MIN_THROUGHPUT_BPS : ℚ := 256 * 1024
def OUTBOUND_SEND_MIN_THROUGHPUT_FLOOR_BPS : ℕ := 1024
def OUTBOUND_SMTP_TIMEOUT_CEILING_MS : ℕ := 60000
def OUTBOUND_SEND_MAX_DEADLINE_MS : ℚ := 2 ^ 31 - 1
def OUTBOUND_INFLIGHT_SLACK_SECONDS : ℤ := 120
def SMTP_TIMEOUT_PHASES : ℚ := 3
def ROUTE_INFLIGHT_FLOOR_SECONDS : ℤ := 15 * 60
def ROUTE_GUARD_SMTP_TIMEOUT_MS : ℚ := OUTBOUND_SMTP_TIMEOUT_CEILING_MS / 4

/-- The part of the configuration that the deadlines depend on. -/
structure SendPolicy where
  smtpTimeoutMs : ℚ
  minThroughputBytesPerSec : ℚ

def outboundSendDeadlineMs (bytes phaseBudgetMs minThroughputBytesPerSec : ℚ) : ℚ :=
  let throughput := max (OUTBOUND_SEND_MIN_THROUGHPUT_FLOOR_BPS : ℚ) minThroughputBytesPerSec
  let phase := max 0 phaseBudgetMs
  let transfer := ⌈max 0 bytes / throughput * 1000⌉
  min (phase + transfer) OUTBOUND_SEND_MAX_DEADLINE_MS

def phaseBudgetFor (smtpTimeoutMs : ℚ) : ℚ := max 0 smtpTimeoutMs * SMTP_TIMEOUT_PHASES

def maxOutboundSendDeadlineMs (input : SendPolicy) : ℚ :=
  outboundSendDeadlineMs (base64Bytes OUTBOUND_PAYLOAD_BUDGET_BYTES) (phaseBudgetFor input.smtpTimeoutMs)
    input.minThroughputBytesPerSec

def inflightWindowSeconds (input : SendPolicy) : ℤ :=
  ⌈maxOutboundSendDeadlineMs input / 1000⌉ + OUTBOUND_INFLIGHT_SLACK_SECONDS

def ROUTE_DEADLINE_INFLIGHT_SECONDS : ℤ :=
  max ROUTE_INFLIGHT_FLOOR_SECONDS
    (inflightWindowSeconds ⟨ROUTE_GUARD_SMTP_TIMEOUT_MS, OUTBOUND_SEND_MIN_THROUGHPUT_BPS⟩)

def inFlightGuard : Text := decimal ROUTE_DEADLINE_INFLIGHT_SECONDS.toNat ++ text "s in-flight guard"

def throughputError : Text :=
  text "OUTBOUND_SEND_MIN_THROUGHPUT_BPS: must be >= " ++ decimal OUTBOUND_SEND_MIN_THROUGHPUT_FLOOR_BPS ++
    text " (a lower floor lets one send outlive the " ++ inFlightGuard ++
    text ", which is what stops a second packet going to a jurisdiction)"

def timeoutError : Text :=
  text "OCI_EMAIL_SMTP_TIMEOUT_MS: must be <= " ++ decimal OUTBOUND_SMTP_TIMEOUT_CEILING_MS ++
    text " (a larger phase budget lets one send outlive the " ++ inFlightGuard ++ text ")"

def deadlineError : Text :=
  text "OCI_EMAIL_SMTP_TIMEOUT_MS / OUTBOUND_SEND_MIN_THROUGHPUT_BPS: the largest computable send deadline exceeds the " ++
    inFlightGuard

def assertOutboundSendPolicy (input : SendPolicy) : List Text :=
  let errors :=
    (if input.minThroughputBytesPerSec < OUTBOUND_SEND_MIN_THROUGHPUT_FLOOR_BPS then [throughputError] else []) ++
      if OUTBOUND_SMTP_TIMEOUT_CEILING_MS < input.smtpTimeoutMs then [timeoutError] else []
  if errors = [] ∧ ROUTE_DEADLINE_INFLIGHT_SECONDS < inflightWindowSeconds input then errors ++ [deadlineError]
  else errors

/-- What is sent: a text, maybe with markup, and the contents of the attachments. -/
structure OutboundMessage where
  body : Text
  html : Option Text
  attachments : Option (List (List ℕ))

def outboundPayloadBytes (input : OutboundMessage) : ℕ :=
  messageBytes (byteLength input.body) ((input.html.map byteLength).getD 0)
    ((input.attachments.getD []).map List.length)

/-! ## Deadlines -/

section

variable {bytes bytes' phase phase' throughput throughput' : ℚ} {input : SendPolicy}

theorem floor_pos : (0 : ℚ) < (OUTBOUND_SEND_MIN_THROUGHPUT_FLOOR_BPS : ℚ) := by
  rw [OUTBOUND_SEND_MIN_THROUGHPUT_FLOOR_BPS]
  norm_num

/-- More bytes, a longer budget for the phases and a slower line give a later deadline. -/
theorem outboundSendDeadlineMs_mono (hbytes : bytes ≤ bytes') (hphase : phase ≤ phase')
    (hthroughput : throughput' ≤ throughput) :
    outboundSendDeadlineMs bytes phase throughput ≤ outboundSendDeadlineMs bytes' phase' throughput' := by
  have hfaster : max (OUTBOUND_SEND_MIN_THROUGHPUT_FLOOR_BPS : ℚ) throughput' ≤
      max (OUTBOUND_SEND_MIN_THROUGHPUT_FLOOR_BPS : ℚ) throughput := max_le_max_left _ hthroughput
  have hpos : 0 < max (OUTBOUND_SEND_MIN_THROUGHPUT_FLOOR_BPS : ℚ) throughput' :=
    lt_of_lt_of_le floor_pos (le_max_left _ _)
  have hrate : max 0 bytes / max (OUTBOUND_SEND_MIN_THROUGHPUT_FLOOR_BPS : ℚ) throughput ≤
      max 0 bytes' / max (OUTBOUND_SEND_MIN_THROUGHPUT_FLOOR_BPS : ℚ) throughput' :=
    div_le_div₀ (le_max_left 0 bytes') (max_le_max_left 0 hbytes) hpos hfaster
  have htransfer : ⌈max 0 bytes / max (OUTBOUND_SEND_MIN_THROUGHPUT_FLOOR_BPS : ℚ) throughput * 1000⌉ ≤
      ⌈max 0 bytes' / max (OUTBOUND_SEND_MIN_THROUGHPUT_FLOOR_BPS : ℚ) throughput' * 1000⌉ :=
    Int.ceil_mono (by linarith)
  exact min_le_min_right _ (add_le_add (max_le_max_left 0 hphase) (by exact_mod_cast htransfer))

theorem deadline_le_window (input : SendPolicy) :
    maxOutboundSendDeadlineMs input ≤
      1000 * ((inflightWindowSeconds input - OUTBOUND_INFLIGHT_SLACK_SECONDS : ℤ) : ℚ) := by
  have hceil : maxOutboundSendDeadlineMs input / 1000 ≤ (⌈maxOutboundSendDeadlineMs input / 1000⌉ : ℚ) := Int.le_ceil _
  rw [inflightWindowSeconds, Int.add_sub_cancel]
  linarith

/-- What it takes for the start-up check to find nothing. -/
theorem assertOutboundSendPolicy_eq_nil : assertOutboundSendPolicy input = [] ↔
    (OUTBOUND_SEND_MIN_THROUGHPUT_FLOOR_BPS : ℚ) ≤ input.minThroughputBytesPerSec ∧
      input.smtpTimeoutMs ≤ OUTBOUND_SMTP_TIMEOUT_CEILING_MS ∧
      inflightWindowSeconds input ≤ ROUTE_DEADLINE_INFLIGHT_SECONDS := by
  rw [assertOutboundSendPolicy]
  by_cases hthroughput : input.minThroughputBytesPerSec < OUTBOUND_SEND_MIN_THROUGHPUT_FLOOR_BPS
  · simp [hthroughput]
  by_cases htimeout : (OUTBOUND_SMTP_TIMEOUT_CEILING_MS : ℚ) < input.smtpTimeoutMs
  · simp [hthroughput, htimeout]
  by_cases hwindow : ROUTE_DEADLINE_INFLIGHT_SECONDS < inflightWindowSeconds input
  · simp [hthroughput, htimeout, hwindow]
  · simpa [hthroughput, htimeout, hwindow] using ⟨not_lt.1 hthroughput, not_lt.1 htimeout, not_lt.1 hwindow⟩

/-- A send whose configuration passed the start-up check and whose message is within the budget is over, with the
slack to spare, before its guard is. -/
theorem send_within_guard (input : SendPolicy) (message : OutboundMessage)
    (hpolicy : assertOutboundSendPolicy input = [])
    (hbudget : outboundPayloadBytes message ≤ base64Bytes OUTBOUND_PAYLOAD_BUDGET_BYTES) :
    outboundSendDeadlineMs (outboundPayloadBytes message) (phaseBudgetFor input.smtpTimeoutMs)
        input.minThroughputBytesPerSec ≤
      1000 * ((ROUTE_DEADLINE_INFLIGHT_SECONDS - 120 : ℤ) : ℚ) := by
  obtain ⟨-, -, hwindow⟩ := assertOutboundSendPolicy_eq_nil.1 hpolicy
  have hbytes : (outboundPayloadBytes message : ℚ) ≤ (base64Bytes OUTBOUND_PAYLOAD_BUDGET_BYTES : ℚ) := by
    exact_mod_cast hbudget
  have hguard : ((inflightWindowSeconds input - OUTBOUND_INFLIGHT_SLACK_SECONDS : ℤ) : ℚ) ≤
      ((ROUTE_DEADLINE_INFLIGHT_SECONDS - 120 : ℤ) : ℚ) := by
    rw [OUTBOUND_INFLIGHT_SLACK_SECONDS]
    exact_mod_cast sub_le_sub_right hwindow 120
  calc outboundSendDeadlineMs (outboundPayloadBytes message) (phaseBudgetFor input.smtpTimeoutMs)
        input.minThroughputBytesPerSec
      ≤ maxOutboundSendDeadlineMs input := outboundSendDeadlineMs_mono hbytes le_rfl le_rfl
    _ ≤ 1000 * ((inflightWindowSeconds input - OUTBOUND_INFLIGHT_SLACK_SECONDS : ℤ) : ℚ) := deadline_le_window input
    _ ≤ 1000 * ((ROUTE_DEADLINE_INFLIGHT_SECONDS - 120 : ℤ) : ℚ) := by linarith

/-- A short message under a timeout and a throughput other than the defaults. -/
theorem slowLine_within_guard :
    outboundSendDeadlineMs (outboundPayloadBytes ⟨text "Hi", some [233], some [[1, 2, 3], [4]]⟩)
      (phaseBudgetFor 60000) 24576 ≤
      1000 * ((ROUTE_DEADLINE_INFLIGHT_SECONDS - 120 : ℤ) : ℚ) :=
  send_within_guard ⟨60000, 24576⟩ ⟨text "Hi", some [233], some [[1, 2, 3], [4]]⟩ (by decide +kernel)
    (by decide +kernel)

example : ROUTE_DEADLINE_INFLIGHT_SECONDS = 900 := by decide +kernel

end

end Civfix.OutboundDeadlines
