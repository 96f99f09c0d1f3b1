import BengalMarket.Cli.EndToEnd
import BengalMarket.Cli.Signals

universe u

namespace BengalMarket.Cli

open JsonText
open Capture (CaptureResult)

section Words

variable (output product endpoint : Bytes) (duration : UInt64)

def captureValues : Values := [(ascii "output", output), (ascii "product", product),
  (ascii "duration", Decimal.text duration.toNat), (ascii "endpoint", endpoint)]

def captureWords : List Bytes :=
  ascii "capture" :: words (captureValues output product endpoint duration)

def captureRequest : CaptureRequest where
  output := output
  productIds := [product]
  duration := duration.toInt64
  endpoint := endpoint

theorem captureNames_nodup :
    (["output", "product", "duration", "endpoint"].map ascii).Nodup := by decide +kernel

variable {J : JsonLibrary} {dumpIndented : Nat → J.Value → Except String Bytes}
  {bengalVersion version : String} {operations : Operations} {order : Values → Values}
  {captureLive : CaptureRequest → Except Bytes (CaptureResult × UInt64)}

theorem main_captureWords (horder : ∀ v, (order v).Perm v) (hne : output ≠ [])
    (hlive : operations.captureLive = some captureLive) :
    main dumpIndented bengalVersion version operations order
        (captureWords output product endpoint duration) =
      Result.exit ⟨[.capture (captureRequest output product endpoint duration)], do
        let (result, signal) ← captureLive (captureRequest output product endpoint duration)
        printed (J.dump (captureValue result signal))
          (if signal = 0 then 0 else 128 + signal)⟩ := by
  have hcommand : command dumpIndented bengalVersion operations (ascii "capture") =
      some (["output", "product", "duration", "endpoint"], capture (J := J) operations) := by
    rw [command, if_neg (by decide), if_neg (by decide), if_neg (by decide), if_neg (by decide),
      if_pos rfl]
  have hmain := main_words version horder hcommand (captureValues output product endpoint duration)
    (List.cons_ne_nil _ _) captureNames_nodup fun _ hn => hn
  have houtput : required (captureValues output product endpoint duration) "output" =
      .ok output := by
    have hlookup : (captureValues output product endpoint duration).lookup (ascii "output") =
        some output := rfl
    rw [required, hlookup]
    simp [hne]
  have hduration : unsignedValue (captureValues output product endpoint duration) "duration" 30 =
      .ok duration := by
    have hvalue : valueOr (captureValues output product endpoint duration) "duration"
        (Decimal.text (30 : UInt64).toNat) = Decimal.text duration.toNat := rfl
    rw [unsignedValue, hvalue, fromChars_text]
  have hproduct (fallback : Bytes) : valueOr (captureValues output product endpoint duration)
      "product" fallback = product := rfl
  have hendpoint (fallback : Bytes) : valueOr (captureValues output product endpoint duration)
      "endpoint" fallback = endpoint := rfl
  refine hmain.trans ?_
  simp only [capture, Capture.captureDuration, hlive, houtput, hduration, hproduct, hendpoint]
  rfl

end Words

section Printing

variable {J : JsonLibrary} {Double : Type} {result : CaptureResult} {signal : UInt64}

def captureRead (result : CaptureResult) (signal : UInt64) : Json Double := .object [
  (ascii "frames", .unsigned result.frames),
  (ascii "interrupted", .bool (signal != 0)),
  (ascii "reconnects", .unsigned result.reconnects),
  (ascii "signal", .unsigned signal)]

def captureKeys : List String := ["frames", "interrupted", "reconnects", "signal"]

theorem captureKeys_spec : (captureKeys.map ascii).Pairwise (· < ·) ∧
    ∀ key ∈ captureKeys.map ascii, utf8 key = true := by decide +kernel

def Known (signal : UInt64) : Prop := signal = 0 ∨ ∃ known : StopSignal, signal = known.number

theorem compact_captureValue (hknown : Known signal)
    (hinterrupted : result.interrupted = true → signal ≠ 0) :
    compact (captureValue result signal : Json Double) =
      compact (captureRead result signal : Json Double) := by
  have hflag : (result.interrupted || signal != 0) = (signal != 0) := by
    cases hresult : result.interrupted with
    | false => rfl
    | true => simpa using hinterrupted hresult
  have hnumber : integer signal.toInt64.toInt = Decimal.text signal.toNat := by
    rcases hknown with rfl | ⟨_ | _, rfl⟩ <;> rfl
  simp only [compact, captureValue, captureRead, render, renderMembers, hflag, hnumber]

theorem captureValue_spec (hJ : J.Lawful) (hknown : Known signal)
    (hinterrupted : result.interrupted = true → signal ≠ 0) :
    ∃ text, J.dump (captureValue result signal) = .ok text ∧
      J.parse text = some (captureRead result signal) := by
  have hprintable : printable (captureValue result signal : J.Value) = true := by
    refine (plain_object_iff captureKeys_spec rfl).2 ?_
    simp only [List.forall_mem_cons]
    exact ⟨rfl, rfl, rfl, rfl, fun _ hmember => absurd hmember List.not_mem_nil⟩
  have hcanonical : canonical (captureRead result signal : J.Value) = true := by
    refine (plain_object_iff captureKeys_spec rfl).2 ?_
    simp only [List.forall_mem_cons]
    exact ⟨rfl, rfl, rfl, rfl, fun _ hmember => absurd hmember List.not_mem_nil⟩
  refine ⟨_, hJ.dump _ hprintable, ?_⟩
  rw [compact_captureValue hknown hinterrupted]
  exact hJ.parse _ hcanonical

end Printing

section Exits

variable {J : JsonLibrary} {dumpIndented : Nat → J.Value → Except String Bytes}
  {bengalVersion version : String} {operations : Operations} {order : Values → Values}
  {captureLive : CaptureRequest → Except Bytes (CaptureResult × UInt64)}
  {output product endpoint : Bytes} {duration : UInt64} {D : Type u} {kills : D → Bool}
  {zeroed : StopSignal → Disposition D} {before : StopSignal → D} {actions : List ScopeAction}
  {s : SignalScope D} {answer : CaptureAnswer}

theorem signal_of_left {result : CaptureResult} {signal : UInt64}
    (hrun : (SignalScope.start zeroed before).run kills actions = some s)
    (hleft : s.stage = .left (some (result, signal))) :
    (signal = 0 ∨ s.Requested signal) ∧ (true ∈ s.polls → signal ≠ 0) ∧ Known signal ∧
      (result.interrupted = true → signal ≠ 0) := by
  obtain ⟨-, -, hpolled⟩ := SignalScope.keeps_of_run hrun
  have hresult : s.stage.result = some result := by rw [hleft]; rfl
  have hsignal : s.stage.signal = some signal := by rw [hleft]; rfl
  obtain ⟨hrequested, hasked⟩ := hpolled.signal signal hsignal
  refine ⟨hrequested, hasked, ?_, fun hinterrupted => ?_⟩
  · rcases hrequested with hzero | ⟨known, -, heq⟩
    · exact .inl hzero
    · exact .inr ⟨known, heq⟩
  · have hlast := hpolled.result result hresult
    rw [hinterrupted] at hlast
    exact hasked (List.mem_of_getLast? hlast)

theorem capture_exit {result : CaptureResult} {signal : UInt64} (hJ : J.Lawful)
    (horder : ∀ v, (order v).Perm v) (houtput : output ≠ []) (hknown : Known signal)
    (hinterrupted : result.interrupted = true → signal ≠ 0)
    (hlive : operations.captureLive = some captureLive)
    (hanswer : captureLive (captureRequest output product endpoint duration) =
      .ok (result, signal)) :
    ∃ text, main dumpIndented bengalVersion version operations order
          (captureWords output product endpoint duration) =
        { calls := [.capture (captureRequest output product endpoint duration)]
          standardOutput := text ++ [0x0A]
          code := if signal = 0 then 0 else 128 + signal } ∧
      J.parse text = some (captureRead result signal) := by
  obtain ⟨text, htext, hparse⟩ := captureValue_spec hJ hknown hinterrupted
  refine ⟨text, ?_, hparse⟩
  rw [main_captureWords _ _ _ _ horder houtput hlive, hanswer]
  simp only [bind, Except.bind, htext]
  rfl

/-- Whenever signals arrive during a capture: what they did before is restored, the stop request is
never taken back, and a request that was polled, or whose handler has returned before the flag is
read, decides the exit code and what is printed. -/
theorem capture_signals (hJ : J.Lawful) (horder : ∀ v, (order v).Perm v) (houtput : output ≠ [])
    (hrun : (SignalScope.start zeroed before).run kills actions = some s)
    (hleft : s.stage = .left answer) (hlive : operations.captureLive = some captureLive)
    (hanswer : (captureLive (captureRequest output product endpoint duration)).toOption =
      answer) :
    (∀ signal, s.actions signal = .previous (before signal)) ∧
      (∃ quiet asked, s.polls = List.replicate quiet false ++ List.replicate asked true) ∧
      (answer = none → ∃ what,
        main dumpIndented bengalVersion version operations order
            (captureWords output product endpoint duration) =
          thrown [.capture (captureRequest output product endpoint duration)] what) ∧
      ∀ result signal, answer = some (result, signal) →
        (∃ text, main dumpIndented bengalVersion version operations order
              (captureWords output product endpoint duration) =
            { calls := [.capture (captureRequest output product endpoint duration)]
              standardOutput := text ++ [0x0A]
              code := if signal = 0 then 0 else 128 + signal } ∧
          J.parse text = some (captureRead result signal)) ∧
        (signal = 0 ∨ s.Requested signal) ∧ (true ∈ s.polls → signal ≠ 0) ∧
        ∀ first good rest m reading, actions = first ++ .proceed good :: rest →
          (SignalScope.start zeroed before).run kills first = some m →
          m.stage = .reading reading → (∃ known ∈ m.delivered, m.handlers known = none) →
          signal ≠ 0 := by
  obtain ⟨hinstalled, hlatched, hpolled⟩ := SignalScope.keeps_of_run hrun
  refine ⟨fun signal => ?_, hpolled.polls, ?_, ?_⟩
  · rw [hinstalled.actions signal (by simp [hleft]), hleft]
    rfl
  · rintro rfl
    cases hcapture : captureLive (captureRequest output product endpoint duration) with
    | error what =>
      refine ⟨what, ?_⟩
      rw [main_captureWords _ _ _ _ horder houtput hlive, hcapture]
      rfl
    | ok captured =>
      rw [hcapture] at hanswer
      cases hanswer
  · rintro result signal rfl
    obtain ⟨hrequested, hasked, hknown, hinterrupted⟩ := signal_of_left hrun hleft
    refine ⟨?_, hrequested, hasked, ?_⟩
    · cases hcapture : captureLive (captureRequest output product endpoint duration) with
      | error what =>
        rw [hcapture] at hanswer
        cases hanswer
      | ok captured =>
        rw [hcapture] at hanswer
        cases hanswer
        exact capture_exit hJ horder houtput hknown hinterrupted hlive hcapture
    · rintro first good rest m reading rfl hfirst hreading hreturned
      rw [SignalScope.run, Transition.run_append] at hrun
      rw [SignalScope.run] at hfirst
      rw [hfirst] at hrun
      obtain ⟨number, hnumber, hne⟩ :=
        SignalScope.read_of_returned hfirst hreading hreturned hrun hleft
      have heq : signal = number := Option.some.inj hnumber
      exact heq ▸ hne

def interrupted : List ScopeAction := [.proceed true, .proceed true, .proceed true,
  .deliver .interrupt, .handle .interrupt, .handle .interrupt, .poll, .finish 1 0,
  .proceed true, .proceed true, .proceed true, .proceed true]

theorem capture_signals_interrupted :
    ∃ text, @main .reference JsonLibrary.referenceIndented "1.0.0" "0.2.0"
        { failing with captureLive := some fun _ => .ok (⟨1, 0, true⟩, 2) } id
        (captureWords [0x66] [0x42] [0x77] 30) =
      { calls := [.capture (captureRequest [0x66] [0x42] [0x77] 30)]
        standardOutput := text ++ [0x0A]
        code := 130 } ∧
      JsonLibrary.reference.parse text = some (captureRead ⟨1, 0, true⟩ 2) := by
  have hrun : ∃ s, (SignalScope.start (fun _ => .previous ()) fun _ => ()).run (fun _ => true)
      interrupted = some s ∧ s.stage = .left (some (⟨1, 0, true⟩, 2)) := ⟨_, rfl, rfl⟩
  obtain ⟨s, hrun, hleft⟩ := hrun
  exact ((@capture_signals .reference JsonLibrary.referenceIndented "1.0.0" "0.2.0"
    { failing with captureLive := some fun _ => .ok (⟨1, 0, true⟩, 2) } id _ [0x66] [0x42] [0x77] 30
    _ _ _ _ _ _ _ JsonLibrary.reference_lawful (fun _ => .refl _) (List.cons_ne_nil 0x66 [])
    hrun hleft rfl rfl).2.2.2 _ _ rfl).1

end Exits

end BengalMarket.Cli
