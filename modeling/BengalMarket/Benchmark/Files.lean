import BengalMarket.Fixture.Stream

namespace BengalMarket.Benchmark.Files

open BufferedOutput
open Fixture (Device Outcome Accepted streamFixture fixtureChunks generateFixture)

variable (p : Policy)

def writeText (device : Device) (path : String) (value : Bytes) : Outcome :=
  if !device.opens then { error := some ("cannot create file: " ++ path) }
  else
    let s := Stream.insert p { room := device.room } value
    { error := if s.good then none else some ("failed writing file: " ++ path)
      file := some s.close }

structure Bundle where
  manifest : Option Bytes
  report : Option Bytes

structure Published where
  error : Option String
  bundle : Option Bundle := none

/-- The last statements of `run_benchmark`; `renamed` is what the rename answers. -/
def publish (manifestDevice reportDevice : Device) (renamed : Option String) (working : String)
    (manifest report : Bytes) : Published :=
  let manifestFile := writeText p manifestDevice (working ++ "/manifest.json") manifest
  match manifestFile.error with
  | some what => { error := some what }
  | none =>
    let reportFile := writeText p reportDevice (working ++ "/report.html") report
    match reportFile.error with
    | some what => { error := some what }
    | none =>
      match renamed with
      | some what => { error := some what }
      | none => { error := none, bundle := some ⟨manifestFile.file, reportFile.file⟩ }

section Laws

variable {p} {device manifestDevice reportDevice : Device} {path working : String}
  {renamed : Option String} {value manifest report : Bytes}

theorem writeText_of_opens (h : device.opens = true) : writeText p device path value =
    { error := if handed p [value] ≤ device.room then none
        else some ("failed writing file: " ++ path)
      file := some (value.take device.room) } := by
  have hone : Stream.insert p { room := device.room } value =
      Stream.insertAll p { room := device.room } [value] := rfl
  have hflatten : [value].flatten = value := by simp
  rw [writeText, h]
  simp only [hone, close_insertAll, good_insertAll, hflatten]
  rfl

theorem writeText_error (h : device.opens = false) :
    (writeText p device path value).error ≠ none := by
  simp [writeText, h]

theorem writeText_eq_none_iff : (writeText p device path value).error = none ↔
    device.opens = true ∧ handed p [value] ≤ device.room := by
  cases h : device.opens with
  | false => simp [writeText_error h]
  | true => simp [writeText_of_opens h]

theorem writeText_complete_iff :
    ((writeText p device path value).error = none →
      (writeText p device path value).file = some value) ↔
      ¬ (device.opens = true ∧ Cut p device.room [value]) := by
  rw [writeText_eq_none_iff]
  cases h : device.opens with
  | false => simp
  | true =>
    rw [writeText_of_opens h]
    simp [Cut]

theorem publish_eq (m r : Option Bytes) :
    (publish p manifestDevice reportDevice renamed working manifest report).bundle = some ⟨m, r⟩ ↔
      (writeText p manifestDevice (working ++ "/manifest.json") manifest).error = none ∧
        (writeText p reportDevice (working ++ "/report.html") report).error = none ∧
        renamed = none ∧
        (writeText p manifestDevice (working ++ "/manifest.json") manifest).file = m ∧
        (writeText p reportDevice (working ++ "/report.html") report).file = r := by
  unfold publish
  cases hmanifest : (writeText p manifestDevice (working ++ "/manifest.json") manifest).error with
  | some what => simp [hmanifest]
  | none =>
    cases hreport : (writeText p reportDevice (working ++ "/report.html") report).error with
    | some what => simp [hmanifest, hreport]
    | none =>
      cases renamed with
      | some what => simp [hmanifest, hreport]
      | none => simp [hmanifest, hreport]

def Passes (p : Policy) (device : Device) (value : Bytes) : Prop :=
  device.opens = true ∧ handed p [value] ≤ device.room

theorem publish_complete_iff :
    (∀ m r, (publish p manifestDevice reportDevice renamed working manifest report).bundle =
        some ⟨m, r⟩ → m = some manifest ∧ r = some report) ↔
      ¬ (renamed = none ∧ Passes p manifestDevice manifest ∧ Passes p reportDevice report ∧
        (Cut p manifestDevice.room [manifest] ∨ Cut p reportDevice.room [report])) := by
  simp only [publish_eq, writeText_eq_none_iff]
  constructor
  · rintro hall ⟨hrenamed, hmanifest, hreport, hcut⟩
    obtain ⟨hm, hr⟩ := hall _ _ ⟨hmanifest, hreport, hrenamed, rfl, rfl⟩
    rcases hcut with hcut | hcut
    · exact writeText_complete_iff.1 (fun _ => hm) ⟨hmanifest.1, hcut⟩
    · exact writeText_complete_iff.1 (fun _ => hr) ⟨hreport.1, hcut⟩
  · rintro hnot m r ⟨hmanifest, hreport, hrenamed, rfl, rfl⟩
    constructor
    · apply writeText_complete_iff.2 _ (writeText_eq_none_iff.2 hmanifest)
      exact fun hcut => hnot ⟨hrenamed, hmanifest, hreport, .inl hcut.2⟩
    · apply writeText_complete_iff.2 _ (writeText_eq_none_iff.2 hreport)
      exact fun hcut => hnot ⟨hrenamed, hmanifest, hreport, .inr hcut.2⟩

end Laws

/-- Success means the bytes are on file, exactly unless the device stops in the tail of a content
that is still in the buffer when the stream is tested. -/
theorem success_complete_iff (p : Policy) :
    (∀ device path value,
      ((writeText p device path value).error = none →
        (writeText p device path value).file = some value) ↔
      ¬ (device.opens = true ∧ Cut p device.room [value])) ∧
    (∀ J device output eventCount productId,
      ((streamFixture J p device output eventCount productId).error = none →
        ∃ content, generateFixture J true true output eventCount productId = .ok content ∧
          (streamFixture J p device output eventCount productId).file = some content) ↔
      ¬ (Accepted device eventCount productId ∧
        ∃ chunks, fixtureChunks J eventCount productId = .ok chunks ∧ Cut p device.room chunks)) ∧
    ∀ manifestDevice reportDevice renamed working manifest report,
      (∀ m r, (publish p manifestDevice reportDevice renamed working manifest report).bundle =
        some ⟨m, r⟩ → m = some manifest ∧ r = some report) ↔
      ¬ (renamed = none ∧ Passes p manifestDevice manifest ∧ Passes p reportDevice report ∧
        (Cut p manifestDevice.room [manifest] ∨ Cut p reportDevice.room [report])) :=
  ⟨fun _ _ _ => writeText_complete_iff, fun _ _ _ _ _ => Fixture.streamFixture_complete_iff,
    fun _ _ _ _ _ _ => publish_complete_iff⟩

/-- A buffer of 8192 bytes and a device that is full: a bundle with empty files is published. -/
theorem truncated_published :
    (¬ ∀ p device path value, (writeText p device path value).error = none →
      (writeText p device path value).file = some value) ∧
    publish (.upTo 8192) { room := 0 } { room := 0 } none "evidence.part" (ascii "null")
      (ascii "<html>") = { error := none, bundle := some ⟨some [], some []⟩ } := by
  refine ⟨fun hall => ?_, rfl⟩
  have hfile := hall (.upTo 8192) { room := 0 } "manifest.json" (ascii "null") (by decide)
  exact absurd hfile (by decide)

end BengalMarket.Benchmark.Files
