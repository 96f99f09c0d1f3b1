import BengalMarket.Capture.Core
import BengalMarket.Cli.Arguments
import BengalMarket.Library.Checked
import BengalMarket.Library.JsonParser

namespace BengalMarket.Capture

open Cli (Values unsignedValue)

/-- `std::chrono::seconds` of the number: its 64 bits, read with a sign. -/
def captureDuration (values : Values) : Except Bytes Int64 :=
  (unsignedValue values "duration" 30).map UInt64.toInt64

/-- The deadline, with every operation on signed 64-bit numbers checked. -/
def checkedDeadline (now seconds : Int64) : Except Checked.Fault Int64 := do
  let requested ← Checked.mul seconds 1000000000
  Checked.add now requested

structure LastsRequested (startNs : Nat) (seconds : Int64) : Prop where
  computed : ∃ at', checkedDeadline (Int64.ofNat startNs) seconds = .ok at' ∧
    at'.toInt = deadline startNs seconds
  exact : deadline startNs seconds = startNs + seconds.toInt * 1000000000
  ahead : (startNs : Int) < deadline startNs seconds
  entered : ∀ (J : JsonLibrary) (path : String) (file : Bytes) (a : Attempt) (rest : List Attempt),
    a.signal = {} → (captureLoop J path (deadline startNs seconds)
      { now := startNs, file := file } (a :: rest)).log ≠ []
  running : ∀ s : Progress, s.stop = false →
    (s.running (deadline startNs seconds) ↔ (s.now : Int) < startNs + seconds.toInt * 1000000000)

section Deadlines

variable {startNs : Nat} {seconds : Int64}

theorem lt_of_bmod_eq {x : Int} (h : x.bmod (2 ^ 64) = x) : x < 2 ^ 63 := by
  have hlt := Int.bmod_lt (x := x) (m := 2 ^ 64) (Nat.pow_pos Nat.two_pos)
  rw [h] at hlt
  omega

theorem bmod_eq_of_lt {x : Int} (hnonneg : 0 ≤ x) (h : x < 2 ^ 63) : x.bmod (2 ^ 64) = x :=
  Int.bmod_eq_of_le (by omega) (by omega)

theorem deadline_eq_iff (hpositive : 0 < seconds.toInt) :
    deadline startNs seconds = startNs + seconds.toInt * 1000000000 ↔
      startNs + seconds.toInt * 1000000000 < 2 ^ 63 :=
  ⟨lt_of_bmod_eq, bmod_eq_of_lt (by omega)⟩

theorem checkedDeadline_eq_ok (hpositive : 0 < seconds.toInt)
    (hfits : startNs + seconds.toInt * 1000000000 < 2 ^ 63) :
    ∃ at', checkedDeadline (Int64.ofNat startNs) seconds = .ok at' ∧
      at'.toInt = startNs + seconds.toInt * 1000000000 := by
  obtain ⟨count, hcount⟩ := Int.eq_ofNat_of_zero_le (Int.le_of_lt hpositive)
  rw [hcount] at hfits ⊢
  have hgreatest : Checked.Machine.greatest Int64 = 2 ^ 63 - 1 := rfl
  have hnow : Checked.Denotes (Int64.ofNat startNs) startNs := Int64.toInt_ofNat_of_lt (by omega)
  have hbillion : Checked.Denotes (1000000000 : Int64) 1000000000 := by
    change (1000000000 : Int64).toInt = 1000000000
    decide
  obtain ⟨hmul, hrequested⟩ := Checked.mul_nat (a := seconds) hcount hbillion (by omega)
  obtain ⟨hadd, hsum⟩ := Checked.add_nat hnow hrequested (by omega)
  refine ⟨_, by rw [checkedDeadline, hmul, Checked.ok_bind, hadd], hsum.trans ?_⟩
  push_cast
  rfl

theorem captureLoop_entered {J : JsonLibrary} {path : String} {file : Bytes} {a : Attempt}
    {rest : List Attempt} {limit : Int} (hahead : (startNs : Int) < limit) (ha : a.signal = {}) :
    (captureLoop J path limit { now := startNs, file := file } (a :: rest)).log ≠ [] := by
  have hrunning : (({ now := startNs, file := file } : Progress).pass a.signal).running limit =
      true := by
    simp [ha, Progress.pass, Progress.running, hahead]
  simp only [captureLoop, hrunning, Bool.not_true, Bool.false_eq_true, if_false]
  split
  · simp
  · simp
  · simp
  · split <;> simp

end Deadlines

/-- The deadline of an accepted duration is the requested one exactly as long as it is a number of
the clock. -/
theorem lastsRequested_iff (values : Values) (seconds : Int64) (startNs : Nat) :
    captureDuration values = .ok seconds → ¬ seconds ≤ 0 → startNs < 2 ^ 63 →
      (LastsRequested startNs seconds ↔ startNs + seconds.toInt * 1000000000 < 2 ^ 63) := by
  intro _ haccepted _
  have hpositive : 0 < seconds.toInt := by
    rw [Int64.not_le] at haccepted
    exact Int64.lt_iff_toInt_lt.1 haccepted
  constructor
  · exact fun h => (deadline_eq_iff hpositive).1 h.exact
  · intro hfits
    have hexact := (deadline_eq_iff hpositive).2 hfits
    have hahead : (startNs : Int) < deadline startNs seconds := by
      rw [hexact]
      omega
    obtain ⟨at', hat, hvalue⟩ := checkedDeadline_eq_ok hpositive hfits
    refine ⟨⟨at', hat, hvalue.trans hexact.symm⟩, hexact, hahead, ?_, fun s hstop => ?_⟩
    · exact fun J path file a rest ha => captureLoop_entered hahead ha
    · rw [hexact, Progress.running, hstop]
      simp

def fixtureArguments (duration : Bytes) : Values := [(ascii "duration", duration)]

theorem lastsRequested_iff_minute :
    captureDuration (fixtureArguments (ascii "60")) = .ok 60 ∧
      (LastsRequested 5 60 ↔ 5 + (60 : Int64).toInt * 1000000000 < 2 ^ 63) := by
  have hparsed : captureDuration (fixtureArguments (ascii "60")) = .ok 60 := by decide +kernel
  exact ⟨hparsed, lastsRequested_iff _ _ _ hparsed (by decide) (by decide)⟩

/-- An accepted duration of some 292 years ends before it begins: nothing is received. -/
theorem overflowing_duration :
    (captureDuration (fixtureArguments (ascii "9223372037")) = .ok 9223372037 ∧
      ¬ (9223372037 : Int64) ≤ 0 ∧ ¬ LastsRequested 0 9223372037) ∧
    ∀ attempts, (captureFrom .reference
        { output := "capture.jsonl", productIds := [ascii "BTC-USD"], durationSeconds := 9223372037 }
        { attempts := { connect := .connected } :: attempts } []).outcome =
      some (.error "capture received no frames") := by
  have hdeadline : deadline 0 9223372037 = -9223372036709551616 := by decide +kernel
  refine ⟨⟨by decide +kernel, by decide, fun h => ?_⟩, fun attempts => ?_⟩
  · have hahead := h.ahead
    rw [hdeadline] at hahead
    exact absurd hahead (by decide)
  · simp [captureFrom, captureLoop, hdeadline, Progress.pass, Progress.running, finish]

end BengalMarket.Capture
