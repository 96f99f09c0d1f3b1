import BengalMarket.Fixture.Readback
import BengalMarket.Pipeline.Replay
import BengalMarket.Pipeline.Shutdown

universe u v

namespace BengalMarket.Fixture

open Reader (readCapture)
open JsonText

variable {productId : Bytes}

section Reports

structure Reports (trades : List Trade) (eventCount : UInt64) (left : Nat)
    (report : ReplayReport) : Prop where
  input : report.input = { frames := eventCount }
  events : report.events.toNat + left = eventCount.toNat
  samples : report.stageLatency.samples = report.events
  checksum : report.checksum =
    (trades.take report.events.toNat).foldl updateChecksum hashOffset
  dropped : report.dropped = 0

variable {trades : List Trade} {eventCount : UInt64} {left left' : Nat}
  {bengal standard : ReplayReport}

theorem Reports.comparable_iff (h : Reports trades eventCount left bengal)
    (h' : Reports trades eventCount left' standard) :
    reportsComparable bengal standard = true ↔ left = left' := by
  have hevents : bengal.events = standard.events ↔ left = left' := by
    have hcount := h.events
    have hcount' := h'.events
    rw [← UInt64.toNat_inj]
    omega
  have hchecksum : bengal.events = standard.events → bengal.checksum = standard.checksum := by
    intro heq
    rw [h.checksum, h'.checksum, heq]
  simp only [reportsComparable, h.input, h'.input, h.samples, h'.samples, h.dropped, h'.dropped,
    beq_self_eq_true, Bool.true_and, Bool.and_true, Bool.and_eq_true, beq_iff_eq]
  rw [← hevents]
  exact ⟨And.left, fun heq => ⟨heq, hchecksum heq⟩⟩

variable {capacity : Nat} {F : BoundedFifo.{0, u} Trade capacity} {J : JsonLibrary} {path : String}
  {file : Bytes} {r : Replay F.Carrier} {events : List Replay.Event}

theorem reports_of_run (hlength : trades.length = eventCount.toNat)
    (hread : readCapture J path (some file) = ⟨trades, .ok { frames := eventCount }⟩)
    (hrun : Replay.run J F (Replay.start F path (some file)) events = some r)
    (hjoined : r.system.producer = .joined) (engine : String) (elapsedNs : UInt64) :
    ∃ report, r.result engine elapsedNs = some (.ok report) ∧
      Reports trades eventCount r.system.leftover report := by
  obtain ⟨hreplayed, hended⟩ := Replay.replayed_of_run hrun hjoined
  simp only [hread] at hreplayed hended
  refine ⟨_, by rw [Replay.result, hended]; rfl, ?_⟩
  obtain ⟨hevents, hsamples⟩ := hreplayed.events_eq
  have hleft := hreplayed.leftover_le
  have hcount : r.system.pipeline.events.toNat = trades.length - r.system.leftover := by
    have hlt := eventCount.toNat_lt
    rw [hevents, UInt64.toNat_ofNat_of_lt' (show _ < 2 ^ 64 by omega)]
  refine ⟨rfl, ?_, ?_, ?_, rfl⟩
  · simp only [Pipeline.report, hcount]
    omega
  · simp [Pipeline.report, hsamples, hevents]
  · simp only [Pipeline.report, hcount]
    exact hreplayed.checksum_eq

end Reports

section Generation

variable {J : JsonLibrary}

def tradesOf (hlength : productId.length ≤ 20) (count : Nat) : List Trade :=
  (List.range count).map fun index => trade hlength (UInt64.ofNat index)

theorem readCapture_linesOf (hJ : J.Lawful) (hne : productId ≠ []) (hlength : productId.length ≤ 20)
    (hutf8 : utf8 productId = true) (eventCount : UInt64) (path : String) :
    readCapture J path (some (Lines.terminated (linesOf J productId eventCount.toNat))) =
      ⟨tradesOf hlength eventCount.toNat, .ok { frames := eventCount }⟩ := by
  have hfinal := finalState_linesOf hJ hne hlength hutf8 eventCount.toNat_lt
  have hpieces :=
    Lines.pieces_terminated (newline_not_mem_linesOf (J := J) hutf8 eventCount.toNat)
  have hbounded := bounded_linesOf (J := J) hlength eventCount.toNat
  rw [← hpieces] at hbounded
  rw [Reader.readCapture_of_seen hbounded (by rw [hfinal]; rfl), hfinal]
  simp [stateAt, ReaderState.metrics, tradesOf]

section Refusals

variable {Double : Type}

theorem doubleFree_metadata (productId : Bytes) :
    doubleFree (metadata productId : Json Double) = true := by
  simp [metadata, doubleFree, plain, plainMembers, plainElements]

theorem utf8_of_printable_metadata (h : printable (metadata productId : Json Double) = true) :
    utf8 productId = true := by
  have hwords := utf8_words
  simp only [recordWords, List.forall_mem_cons] at hwords
  simpa [metadata, printable, plain, plainMembers, plainElements, hwords] using h

end Refusals

theorem utf8_of_fixtureChunks (hJ : J.Lawful) {eventCount : UInt64} {chunks : List Bytes}
    (h : fixtureChunks J eventCount productId = .ok chunks) : utf8 productId = true := by
  refine @utf8_of_printable_metadata _ J.Double (Bool.of_not_eq_false fun hprintable => ?_)
  obtain ⟨what, hwhat⟩ := hJ.refuse _ (doubleFree_metadata productId) hprintable
  simp only [fixtureChunks, writeFixture, hwhat] at h
  cases h

theorem exists_trades (hJ : J.Lawful) {eventCount : UInt64} (hcount : 1 ≤ eventCount.toNat)
    (hproduct : 1 ≤ productId.length) (hlength : productId.length ≤ 20)
    (hutf8 : utf8 productId = true) (output : String) :
    ∃ file trades, generateFixture J true true output eventCount productId = .ok file ∧
      (trades.length = eventCount.toNat ∧
        ∀ (index : Nat) (h : index < trades.length), Generated productId index trades[index]) ∧
      ∀ path, readCapture J path (some file) = ⟨trades, .ok { frames := eventCount }⟩ := by
  have hne := List.ne_nil_of_length_pos hproduct
  have hnonzero : eventCount ≠ 0 := by
    rintro rfl
    exact absurd hcount (by decide)
  have htrades : (tradesOf hlength eventCount.toNat).length = eventCount.toNat := by
    simp [tradesOf]
  refine ⟨_, tradesOf hlength eventCount.toNat,
    generateFixture_eq hJ hnonzero hne hlength hutf8 output, ⟨htrades, fun index h => ?_⟩,
    readCapture_linesOf hJ hne hlength hutf8 eventCount⟩
  have hlt := eventCount.toNat_lt
  simp only [tradesOf, List.getElem_map, List.getElem_range]
  exact generated_trade (by omega)

/-- Every replay of a generated fixture reports each event once but for the ones it left in the
queue, two replays are comparable exactly if they left equally many, and some leave none. -/
theorem replay_generateFixture (hJ : J.Lawful) {eventCount : UInt64} (hcount : 1 ≤ eventCount.toNat)
    (hproduct : 1 ≤ productId.length) (hlength : productId.length ≤ 20)
    (hutf8 : utf8 productId = true) (output path : String) :
    ∃ file trades, generateFixture J true true output eventCount productId = .ok file ∧
      (trades.length = eventCount.toNat ∧
        ∀ (index : Nat) (h : index < trades.length), Generated productId index trades[index]) ∧
      (∀ {capacity : Nat} (F : BoundedFifo.{0, u} Trade capacity) events r engine elapsedNs,
        Replay.run J F (Replay.start F path (some file)) events = some r →
        r.system.producer = .joined →
        ∃ report, r.result engine elapsedNs = some (.ok report) ∧
          Reports trades eventCount r.system.leftover report) ∧
      (∀ left left' bengal standard, Reports trades eventCount left bengal →
        Reports trades eventCount left' standard →
        (reportsComparable bengal standard = true ↔ left = left')) ∧
      ∀ {capacity : Nat} (F : BoundedFifo.{0, u} Trade capacity), 0 < capacity →
        ∃ events r, Replay.run J F (Replay.start F path (some file)) events = some r ∧
          r.system.producer = .joined ∧ r.system.leftover = 0 := by
  obtain ⟨file, trades, hfile, htrades, hread⟩ :=
    exists_trades hJ hcount hproduct hlength hutf8 output
  refine ⟨file, trades, hfile, htrades,
    fun F events r engine elapsedNs hrun hjoined =>
      reports_of_run htrades.1 (hread path) hrun hjoined _ _,
    fun left left' bengal standard h h' => h.comparable_iff h', fun F hcap => ?_⟩
  obtain ⟨steps, s, hreplayed, hconsumed⟩ := System.exists_consuming (F := F) hcap trades
  have hleft := hreplayed.consumed_iff.1 hconsumed
  have hdelivered : System.Replayed F (readCapture J path (some file)).delivered steps s := by
    rwa [hread]
  obtain ⟨events, r, hrun, -, rfl, -⟩ := Replay.exists_run_of_replayed hdelivered
  exact ⟨events, r, hrun, hreplayed.joined, hleft⟩

theorem replay_generateFixture_three :
    ∃ file trades, generateFixture .reference true true "fixture.jsonl" 3 [0x42, 0x54, 0x43] =
        .ok file ∧
      (trades.length = (3 : UInt64).toNat ∧ ∀ (index : Nat) (h : index < trades.length),
        Generated [0x42, 0x54, 0x43] index trades[index]) ∧
      (∀ {capacity : Nat} (F : BoundedFifo.{0, 0} Trade capacity) events r engine elapsedNs,
        Replay.run .reference F (Replay.start F "fixture.jsonl" (some file)) events = some r →
        r.system.producer = .joined →
        ∃ report, r.result engine elapsedNs = some (.ok report) ∧
          Reports trades 3 r.system.leftover report) ∧
      (∀ left left' bengal standard, Reports trades 3 left bengal →
        Reports trades 3 left' standard →
        (reportsComparable bengal standard = true ↔ left = left')) ∧
      ∀ {capacity : Nat} (F : BoundedFifo.{0, 0} Trade capacity), 0 < capacity →
        ∃ events r, Replay.run .reference F (Replay.start F "fixture.jsonl" (some file)) events =
            some r ∧
          r.system.producer = .joined ∧ r.system.leftover = 0 :=
  replay_generateFixture JsonLibrary.reference_lawful (by decide) (by decide) (by decide)
    (by decide) "fixture.jsonl" "fixture.jsonl"

end Generation

end BengalMarket.Fixture
