import BengalMarket.Capture.Readback
import BengalMarket.Fixture.Generator
import BengalMarket.Library.Calendar
import BengalMarket.Library.JsonParser
import BengalMarket.Library.JsonUtf8
import BengalMarket.Reader.Canonical

namespace BengalMarket.Fixture

open JsonText Lines Reader

section Numbers

theorem toInt_varied {base : Int64} {b p t : Nat} {period step : UInt64}
    (hbase : base.toInt = b) (hperiod : period.toNat = p) (hstep : step.toNat = t) (hp : 0 < p)
    (hsum : b + p * t < 2 ^ 63) (index : UInt64) :
    (varied base period step index).toInt = b + (index.toNat % p * t : Nat) := by
  have hle : index.toNat % p * t ≤ p * t := Nat.mul_le_mul_right t (Nat.mod_lt _ hp).le
  have hproduct : ((index % period) * step).toNat = index.toNat % p * t := by
    rw [UInt64.toNat_mul, UInt64.toNat_mod, hperiod, hstep, Nat.mod_eq_of_lt (by omega)]
  rw [varied, Int64.toInt_add, toInt_toInt64 (by omega), hbase, hproduct]
  exact Int.bmod_eq_of_le (by omega) (by omega)

theorem toInt_price (index : UInt64) :
    (price index).toInt = 3000000000000 + (index.toNat % 10000 * 10000 : Nat) :=
  toInt_varied (b := 3000000000000) rfl rfl rfl (by decide) (by decide) index

theorem toInt_amount (index : UInt64) :
    (amount index).toInt = 100000 + (index.toNat % 100 * 1000 : Nat) :=
  toInt_varied (b := 100000) rfl rfl rfl (by decide) (by decide) index

theorem length_tradeId_le (index : UInt64) :
    (Decimal.text (index + 1).toNat).length ≤ 24 :=
  (Capture.length_number_le _).trans (by decide)

theorem parseTimestampNs_time : parseTimestampNs time = some 1767225600000000000 := by
  decide +kernel

end Numbers

variable {productId : Bytes}

def trade (hlength : productId.length ≤ 20) (index : UInt64) : Trade where
  tradeId := ⟨Decimal.text (index + 1).toNat, length_tradeId_le index⟩
  productId := ⟨productId, hlength⟩
  price := price index
  size := amount index
  side := if index % 2 = 0 then .buy else .sell
  sourceTimeNs := 1767225600000000000

section Texts

theorem ascii_of_digits {digits : Bytes} (h : Decimal.Digits digits) : Ascii digits := by
  intro byte hbyte
  have hdigit := h byte hbyte
  simp only [Decimal.isDigit, Bool.and_eq_true, decide_eq_true_eq] at hdigit
  exact UInt8.lt_of_le_of_lt hdigit.2 (by decide)

theorem ascii_spelling (s : Spelling) : Ascii s.text := by
  have hsign : Ascii s.sign.text := by
    cases s.sign <;> exact ascii_of_all (by decide)
  have hfraction : Ascii (Spelling.fractionText s.fraction) := by
    cases h : s.fraction with
    | none => exact fun byte hbyte => absurd hbyte List.not_mem_nil
    | some digits =>
      exact List.forall_mem_cons.2 ⟨by decide, ascii_of_digits (s.fraction_digits digits h)⟩
  intro byte hbyte
  simp only [Spelling.text, List.mem_append] at hbyte
  rcases hbyte with (hbyte | hbyte) | hbyte
  · exact hsign byte hbyte
  · exact ascii_of_digits s.whole_digits byte hbyte
  · exact hfraction byte hbyte

theorem utf8_formatDecimal (value : Int64) : utf8 (formatDecimal value) = true := by
  rw [← text_printed]
  exact utf8_of_ascii (ascii_spelling _)

theorem length_formatDecimal_le (value : Int64) : (formatDecimal value).length ≤ 30 := by
  have hsign : (printed value).sign.text.length ≤ 1 := by
    cases (printed value).sign <;> decide
  have hwhole : (printed value).whole.length ≤ 20 :=
    Decimal.length_text_le ((Nat.div_le_self _ _).trans_lt
      ((magnitude value).toNat_lt.trans (by decide))) (by decide)
  have hfraction : (Spelling.fractionText (printed value).fraction).length ≤ 9 := by
    cases h : (printed value).fraction with
    | none => exact Nat.zero_le _
    | some digits => exact Nat.succ_le_succ ((printed value).fraction_length digits h)
  rw [← text_printed, Spelling.text, List.length_append, List.length_append]
  omega

end Texts

section Records

variable {Double : Type}

/-- The records as a parser builds them: every number is unsigned. -/
def metadataRead (productId : Bytes) : Json Double := .object [
  (ascii "format", .string (ascii "bengal-market-capture")),
  (ascii "product_ids", .array [.string productId]),
  (ascii "source", .string (ascii "deterministic-generator")),
  (ascii "type", .string (ascii "metadata")),
  (ascii "version", .unsigned 1)]

def frameRead (index : UInt64) (text : Bytes) : Json Double := .object [
  (ascii "connection_id", .unsigned 1),
  (ascii "payload", .string text),
  (ascii "received_ns", .unsigned (index * 1000)),
  (ascii "type", .string (ascii "frame"))]

theorem compact_metadata (productId : Bytes) :
    compact (metadata productId : Json Double) = compact (metadataRead productId : Json Double) :=
  rfl

theorem compact_frame (index : UInt64) (text : Bytes) :
    compact (frame index text : Json Double) = compact (frameRead index text : Json Double) := rfl

variable {parsed : Bool}

def recordWords : List String := ["format", "bengal-market-capture", "product_ids", "source",
  "deterministic-generator", "type", "metadata", "version", "price", "product_id", "side", "size",
  "time", "trade_id", "trades", "update", "channel", "market_trades", "events", "sequence_num",
  "timestamp", "connection_id", "payload", "received_ns", "frame", "BUY", "SELL"]

def recordKeys : List (List String) := [
  ["price", "product_id", "side", "size", "time", "trade_id"],
  ["trades", "type"],
  ["channel", "events", "sequence_num", "timestamp"],
  ["format", "product_ids", "source", "type", "version"],
  ["connection_id", "payload", "received_ns", "type"]]

theorem utf8_words : ∀ word ∈ recordWords, utf8 (ascii word) = true := by
  decide +kernel

theorem length_words : ∀ word ∈ recordWords, (string (ascii word)).length ≤ 25 := by
  decide +kernel

theorem recordKeys_spec : ∀ words ∈ recordKeys, (words.map ascii).Pairwise (· < ·) ∧
    ∀ key ∈ words.map ascii, utf8 key = true := by
  decide +kernel

theorem plain_record_object {members : List (Bytes × Json Double)} (words : List String)
    (hwords : words ∈ recordKeys) (hkeys : members.map Prod.fst = words.map ascii) :
    plain true parsed (.object members) = true ↔
      ∀ member ∈ members, plain true parsed member.2 = true :=
  plain_object_iff (recordKeys_spec words hwords) hkeys

theorem time_spec : utf8 time = true ∧ (string time).length ≤ 40 := by decide +kernel

theorem utf8_side (index : UInt64) :
    utf8 (if index % 2 = 0 then ascii "BUY" else ascii "SELL") = true := by
  split
  · exact utf8_words "BUY" (by simp [recordWords])
  · exact utf8_words "SELL" (by simp [recordWords])

theorem length_side_le (index : UInt64) :
    (string (if index % 2 = 0 then ascii "BUY" else ascii "SELL")).length ≤ 25 := by
  split
  · exact length_words "BUY" (by simp [recordWords])
  · exact length_words "SELL" (by simp [recordWords])

theorem plain_inputTrade (index : UInt64) (h : utf8 productId = true) :
    plain true parsed (inputTrade index productId : Json Double) = true := by
  rw [inputTrade, plain_record_object ["price", "product_id", "side", "size", "time", "trade_id"]
    (by simp [recordKeys]) rfl]
  simp [plain, h, time_spec.1, utf8_formatDecimal, utf8_side, utf8_of_ascii (ascii_text _)]

theorem plain_event (index : UInt64) (h : utf8 productId = true) :
    plain true parsed (event index productId : Json Double) = true := by
  rw [event, plain_record_object ["trades", "type"] (by simp [recordKeys]) rfl]
  simp [plain, plainElements, plain_inputTrade index h, utf8_words "update" (by simp [recordWords])]

theorem plain_payload (index : UInt64) (h : utf8 productId = true) :
    plain true parsed (payload index productId : Json Double) = true := by
  rw [payload, plain_record_object ["channel", "events", "sequence_num", "timestamp"]
    (by simp [recordKeys]) rfl]
  simp [plain, plainElements, plain_event index h, time_spec.1,
    utf8_words "market_trades" (by simp [recordWords])]

theorem canonical_metadataRead (h : utf8 productId = true) :
    canonical (metadataRead productId : Json Double) = true := by
  have hwords := utf8_words
  simp only [recordWords, List.forall_mem_cons] at hwords
  rw [metadataRead, plain_record_object ["format", "product_ids", "source", "type", "version"]
    (by simp [recordKeys]) rfl]
  simp [plain, plainElements, hwords, h]

theorem canonical_frameRead (index : UInt64) {text : Bytes} (h : utf8 text = true) :
    canonical (frameRead index text : Json Double) = true := by
  rw [frameRead, plain_record_object ["connection_id", "payload", "received_ns", "type"]
    (by simp [recordKeys]) rfl]
  simp [plain, h, utf8_words "frame" (by simp [recordWords])]

theorem printable_metadata (h : utf8 productId = true) :
    printable (metadata productId : Json Double) = true := by
  have hwords := utf8_words
  simp only [recordWords, List.forall_mem_cons] at hwords
  rw [metadata, plain_record_object ["format", "product_ids", "source", "type", "version"]
    (by simp [recordKeys]) rfl]
  simp [plain, plainElements, hwords, h]

theorem printable_frame (index : UInt64) {text : Bytes} (h : utf8 text = true) :
    printable (frame index text : Json Double) = true := by
  rw [frame, plain_record_object ["connection_id", "payload", "received_ns", "type"]
    (by simp [recordKeys]) rfl]
  simp [plain, h, utf8_words "frame" (by simp [recordWords])]

end Records

section Lines

theorem length_compact_payload_le {Double : Type} (hlength : productId.length ≤ 20)
    (index : UInt64) :
    (compact (payload index productId : Json Double)).length ≤ 1500 := by
  have hwords := length_words
  simp only [recordWords, List.forall_mem_cons] at hwords
  have htime := time_spec.2
  have hside := length_side_le index
  have hprice := length_escape_le (formatDecimal (price index))
  have hprice' := length_formatDecimal_le (price index)
  have hamount := length_escape_le (formatDecimal (amount index))
  have hamount' := length_formatDecimal_le (amount index)
  have hproduct := length_escape_le productId
  have htradeId := length_escape_le (Decimal.text (index + 1).toNat)
  have hnumber := Capture.length_number_le (index + 1)
  simp only [compact, payload, event, inputTrade, render, renderElements, renderMembers,
    List.length_cons, List.length_append, List.length_nil, length_string productId,
    length_string (formatDecimal _), length_string (Decimal.text _)]
  omega

variable (J : JsonLibrary)

def text (productId : Bytes) (index : UInt64) : Bytes := compact (payload index productId : J.Value)

def line (productId : Bytes) (index : UInt64) : Bytes :=
  compact (frame index (text J productId index) : J.Value)

def metadataLine (productId : Bytes) : Bytes := compact (metadata productId : J.Value)

variable {J}

theorem utf8_text (index : UInt64) (h : utf8 productId = true) :
    utf8 (text J productId index) = true := by
  have hplain : plain true true (payload index productId : J.Value) = true := plain_payload index h
  exact utf8_compact hplain

theorem length_line_le (hlength : productId.length ≤ 20) (index : UInt64) :
    (line J productId index).length ≤ maximumRecordSize := by
  have hwords := length_words
  simp only [recordWords, List.forall_mem_cons] at hwords
  have hescape := length_escape_le (text J productId index)
  have htext : (text J productId index).length ≤ 1500 := length_compact_payload_le hlength index
  have hnumber := Capture.length_number_le (index * 1000)
  have hone : (integer (1 : Int64).toInt).length = 1 := rfl
  have hlimit : maximumRecordSize = 8388608 := rfl
  simp only [line, compact, frame, render, renderMembers, List.length_cons, List.length_append,
    List.length_nil, length_string (text _ _ _), hone]
  omega

theorem length_metadataLine_le (hlength : productId.length ≤ 20) :
    (metadataLine J productId).length ≤ maximumRecordSize := by
  have hwords := length_words
  simp only [recordWords, List.forall_mem_cons] at hwords
  have hescape := length_escape_le productId
  have hone : (integer (1 : Int64).toInt).length = 1 := rfl
  have hlimit : maximumRecordSize = 8388608 := rfl
  simp only [metadataLine, compact, metadata, render, renderElements, renderMembers,
    List.length_cons, List.length_append, List.length_nil, length_string productId, hone]
  omega

theorem newline_not_mem_compact {value : J.Value} (h : printable value = true) :
    newline ∉ compact value := fun hmem => absurd (le_of_mem_render _ h hmem) (by decide)

end Lines

section Reading

variable {J : JsonLibrary} {hlength : productId.length ≤ 20}

theorem readSide_side (index : UInt64) :
    readSide (if index % 2 = 0 then ascii "BUY" else ascii "SELL") =
      .ok (if index % 2 = 0 then .buy else .sell) := by
  split <;> decide

theorem readTrade_inputTrade (index : UInt64) :
    readTrade J (inputTrade index productId) = .ok (trade hlength index) := by
  have hprice : memberString J (inputTrade index productId) "price" =
      .ok (formatDecimal (price index)) := rfl
  have hsize : memberString J (inputTrade index productId) "size" =
      .ok (formatDecimal (amount index)) := rfl
  have hside : memberString J (inputTrade index productId) "side" =
      .ok (if index % 2 = 0 then ascii "BUY" else ascii "SELL") := rfl
  have htime : memberString J (inputTrade index productId) "time" = .ok time := rfl
  have htradeId : memberString J (inputTrade index productId) "trade_id" =
      .ok (Decimal.text (index + 1).toNat) := rfl
  have hproductId : memberString J (inputTrade index productId) "product_id" = .ok productId := rfl
  unfold readTrade
  rw [hprice, hsize, hside, htime, htradeId, hproductId]
  simp only [bind, Except.bind, parseDecimal_formatDecimal, parseTimestampNs_time, parsed,
    BoundedText.assign, dif_pos (length_tradeId_le index), dif_pos hlength, readSide_side]
  rfl

theorem readPayload_payload (connectionId index : UInt64) (sequence : Option UInt64) :
    readPayload J ⟨connectionId, payload index productId, ascii "market_trades", sequence⟩ =
      ([trade hlength index], none) := by
  have hevents : member J (payload index productId) "events" =
      .ok (.array [event index productId]) := rfl
  have htrades : member J (event index productId) "trades" =
      .ok (.array [inputTrade index productId]) := rfl
  simp only [readPayload, ne_eq, not_true_eq_false, if_false, hevents, Json.children, readEvents,
    htrades, readTrades, @readTrade_inputTrade _ J hlength]
  rfl

theorem readRecord_frameRead {s : ReaderState} (hs : s.metadataSeen = true)
    {tracker : SequenceTracker} {index : UInt64} {text : Bytes}
    (hparse : J.parse text = some (payload index productId))
    (htrack : s.tracker.track 1 (index + 1) = .ok tracker) :
    readRecord J s (frameRead index text) = ({ s with
      frames := s.frames + 1
      tracker := tracker
      delivered := s.delivered ++ [trade hlength index] }, none) := by
  have htype : memberString J (frameRead index text) "type" = .ok (ascii "frame") := rfl
  have hne : ascii "frame" ≠ ascii "metadata" := by decide
  have henvelope : readEnvelope J (frameRead index text) =
      .ok ⟨1, payload index productId, ascii "market_trades", some (index + 1)⟩ :=
    readEnvelope_eq_ok_iff.2 ⟨⟨_, rfl⟩, rfl, ⟨text, rfl, hparse⟩, rfl, rfl⟩
  simp only [readRecord, htype, if_neg hne, ne_eq, not_true_eq_false, if_false, hs, Bool.not_true,
    Bool.false_eq_true, readFrame, henvelope, htrack, @readPayload_payload _ J hlength]

def stateAt (hlength : productId.length ≤ 20) (count : Nat) : ReaderState where
  frames := UInt64.ofNat count
  tracker := { lastSequences := if count = 0 then [] else [(1, UInt64.ofNat count)] }
  metadataSeen := true
  delivered := (List.range count).map fun index => trade hlength (UInt64.ofNat index)

theorem ofNat_succ (n : Nat) : UInt64.ofNat (n + 1) = UInt64.ofNat n + 1 := UInt64.ofNat_add n 1

theorem track_stateAt {count : Nat} (h : count + 1 < 2 ^ 64) :
    (stateAt hlength count).tracker.track 1 (UInt64.ofNat count + 1) =
      .ok (stateAt hlength (count + 1)).tracker := by
  cases count with
  | zero => rfl
  | succ count =>
    have hvalue : (UInt64.ofNat (count + 1)).toNat = count + 1 :=
      UInt64.toNat_ofNat_of_lt' ((Nat.lt_succ_self _).trans h)
    have hnext : (UInt64.ofNat (count + 1) + 1).toNat = count + 2 := by
      rw [← ofNat_succ, UInt64.toNat_ofNat_of_lt' h]
    have hgt : UInt64.ofNat (count + 1) + 1 > UInt64.ofNat (count + 1) := by
      rw [gt_iff_lt, UInt64.lt_iff_toNat_lt, hvalue, hnext]
      omega
    have hle : ¬ UInt64.ofNat (count + 1) + 1 ≤ UInt64.ofNat (count + 1) := UInt64.not_le.2 hgt
    have hdifference : UInt64.ofNat (count + 1) + 1 - UInt64.ofNat (count + 1) = 1 := by
      rw [UInt64.add_comm, UInt64.add_sub_cancel]
    have hone : ¬ (1 : UInt64) > 1 := by decide
    simp only [stateAt, Nat.succ_ne_zero, if_false, SequenceTracker.track, List.lookup_cons_self,
      SequenceTracker.advance, hgt, hle, hdifference, hone, if_true, decide_true, decide_false,
      Bool.and_false, Bool.false_eq_true, SequenceTracker.setLast, List.map_cons, List.map_nil,
      ofNat_succ (count + 1)]

theorem record?_line (hJ : J.Lawful) (hutf8 : utf8 productId = true) (index : UInt64) :
    record? J (line J productId index) = some (frameRead index (text J productId index)) := by
  rw [line, compact_frame]
  exact record?_compact hJ (canonical_frameRead index (utf8_text index hutf8))
    (by simp [frameRead, compact, render])

theorem step_line (hJ : J.Lawful) (hutf8 : utf8 productId = true) {count : Nat}
    (h : count + 1 < 2 ^ 64) :
    step J (stateAt hlength count) (line J productId (UInt64.ofNat count)) =
      stateAt hlength (count + 1) := by
  have hrecord := record?_line hJ hutf8 (UInt64.ofNat count)
  have hparse : J.parse (text J productId (UInt64.ofNat count)) =
      some (payload (UInt64.ofNat count) productId) := hJ.parse _ (plain_payload _ hutf8)
  have hread := @readRecord_frameRead productId J hlength (stateAt hlength count) rfl _ _ _ hparse
    (track_stateAt h)
  rw [step, if_neg (ne_nil_of_record? hrecord), readLine_of_record? hrecord, hread, countError]
  simp only [stateAt, ofNat_succ, List.range_succ, List.map_append, List.map_cons, List.map_nil]

theorem foldl_step_lines (hJ : J.Lawful) (hutf8 : utf8 productId = true) {count : Nat}
    (h : count < 2 ^ 64) :
    ((List.range count).map fun index => line J productId (UInt64.ofNat index)).foldl (step J)
      (stateAt hlength 0) = stateAt hlength count := by
  induction count with
  | zero => rfl
  | succ count ih =>
    rw [List.range_succ, List.map_append, List.foldl_append, ih (by omega)]
    exact step_line hJ hutf8 h

theorem isMetadataLine_metadataLine (hJ : J.Lawful) (hne : productId ≠ [])
    (hlength : productId.length ≤ 20) (hutf8 : utf8 productId = true) :
    IsMetadataLine J (metadataLine J productId) := by
  refine ⟨metadataRead productId, ?_, rfl, rfl, ⟨_, rfl, rfl⟩, ⟨_, rfl⟩, ?_⟩
  · rw [metadataLine, compact_metadata]
    exact record?_compact hJ (canonical_metadataRead hutf8)
      (by simp [metadataRead, compact, render])
  · refine ⟨[.string productId], rfl, by simp, ?_⟩
    rw [List.forall_mem_singleton]
    exact ⟨productId, rfl, List.length_pos_of_ne_nil hne, hlength⟩

end Reading

section Generation

variable {J : JsonLibrary}

def chunksOf (lines : List Bytes) : List Bytes := lines.flatMap fun line => [line, [newline]]

theorem flatten_chunksOf (lines : List Bytes) : (chunksOf lines).flatten = terminated lines := by
  induction lines with
  | nil => rfl
  | cons line lines ih => simpa [chunksOf, terminated] using ih

theorem writeFrames_eq (hJ : J.Lawful) (hutf8 : utf8 productId = true)
    (eventCount index : UInt64) :
    writeFrames J productId eventCount index =
      { chunks := chunksOf
          ((List.range' index.toNat (eventCount.toNat - index.toNat)).map fun index =>
            line J productId (UInt64.ofNat index)) } := by
  have hbound := eventCount.toNat_lt
  have hpayload (index : UInt64) : J.dump (payload index productId) =
      .ok (text J productId index) := hJ.dump _ (plain_payload index hutf8)
  have hframe (index : UInt64) : J.dump (frame index (text J productId index)) =
      .ok (line J productId index) := hJ.dump _ (printable_frame index (utf8_text index hutf8))
  fun_induction writeFrames J productId eventCount index with
  | case1 index hlt what hdump => cases (hpayload index).symm.trans hdump
  | case2 index hlt text hdump what hline =>
    cases (hpayload index).symm.trans hdump
    cases (hframe index).symm.trans hline
  | case3 index hlt text hdump line hline rest ih =>
    have hnat := UInt64.lt_iff_toNat_lt.1 hlt
    have hnext : (index + 1).toNat = index.toNat + 1 := by
      rw [UInt64.toNat_add, UInt64.toNat_one, Nat.mod_eq_of_lt (by omega)]
    have hcount : eventCount.toNat - index.toNat = eventCount.toNat - (index + 1).toNat + 1 := by
      omega
    cases (hpayload index).symm.trans hdump
    cases (hframe index).symm.trans hline
    simp only [rest, ih]
    rw [hcount, List.range'_succ, List.map_cons, UInt64.ofNat_toNat, hnext]
    rfl
  | case4 index hge =>
    have hle := UInt64.le_iff_toNat_le.1 (UInt64.not_lt.1 hge)
    rw [Nat.sub_eq_zero_of_le hle]
    rfl

variable (J) in
def linesOf (productId : Bytes) (count : Nat) : List Bytes :=
  metadataLine J productId :: (List.range count).map fun index =>
    line J productId (UInt64.ofNat index)

theorem fixtureChunks_eq (hJ : J.Lawful) (hutf8 : utf8 productId = true) (eventCount : UInt64) :
    fixtureChunks J eventCount productId =
      .ok (chunksOf (linesOf J productId eventCount.toNat)) := by
  have hmetadata : J.dump (metadata productId) = .ok (metadataLine J productId) :=
    hJ.dump _ (printable_metadata hutf8)
  simp only [fixtureChunks, writeFixture, hmetadata, writeFrames_eq hJ hutf8]
  simp [linesOf, chunksOf, List.range_eq_range']

theorem generateFixture_eq (hJ : J.Lawful) {eventCount : UInt64} (hcount : eventCount ≠ 0)
    (hne : productId ≠ []) (hlength : productId.length ≤ 20) (hutf8 : utf8 productId = true)
    (output : String) :
    generateFixture J true true output eventCount productId =
      .ok (terminated (linesOf J productId eventCount.toNat)) := by
  rw [generateFixture, refusal_eq_none_iff.2 ⟨hcount, hne, hlength, rfl⟩,
    fixtureChunks_eq hJ hutf8, ← flatten_chunksOf]
  rfl

theorem newline_not_mem_linesOf (hutf8 : utf8 productId = true) (count : Nat) :
    ∀ line ∈ linesOf J productId count, newline ∉ line := by
  rw [linesOf, List.forall_mem_cons, List.forall_mem_map]
  exact ⟨newline_not_mem_compact (printable_metadata hutf8),
    fun _ _ => newline_not_mem_compact (printable_frame _ (utf8_text _ hutf8))⟩

theorem bounded_linesOf (hlength : productId.length ≤ 20) (count : Nat) :
    Bounded (linesOf J productId count) := by
  rw [Bounded, linesOf, List.forall_mem_cons, List.forall_mem_map]
  exact ⟨length_metadataLine_le hlength, fun _ _ => length_line_le hlength _⟩

theorem finalState_linesOf (hJ : J.Lawful) (hne : productId ≠ []) (hlength : productId.length ≤ 20)
    (hutf8 : utf8 productId = true) {count : Nat} (h : count < 2 ^ 64) :
    finalState J (terminated (linesOf J productId count)) = stateAt hlength count := by
  have hfirst := @step_of_metadata J {} rfl _ (isMetadataLine_metadataLine hJ hne hlength hutf8)
  rw [finalState, pieces_terminated (newline_not_mem_linesOf hutf8 count), linesOf, List.foldl_cons,
    hfirst]
  exact foldl_step_lines hJ hutf8 h

structure Generated (productId : Bytes) (index : Nat) (t : Trade) : Prop where
  tradeId : t.tradeId.view = Decimal.text (index + 1)
  productId : t.productId.view = productId
  price : t.price.toInt = 3 * 10 ^ 12 + (index % 10000 : Nat) * 10 ^ 4
  size : t.size.toInt = 10 ^ 5 + (index % 100 : Nat) * 1000
  side : t.side = .buy ↔ index % 2 = 0
  sourceTime : t.sourceTimeNs.toNat = Calendar.daysSince 1970 2026 1 1 * 86400 * 10 ^ 9

theorem generated_trade {hlength : productId.length ≤ 20} {index : Nat} (h : index + 1 < 2 ^ 64) :
    Generated productId index (trade hlength (UInt64.ofNat index)) := by
  have hindex : (UInt64.ofNat index).toNat = index :=
    UInt64.toNat_ofNat_of_lt' ((Nat.lt_succ_self _).trans h)
  have hnext : (UInt64.ofNat index + 1).toNat = index + 1 := by
    rw [← ofNat_succ, UInt64.toNat_ofNat_of_lt' h]
  have heven : UInt64.ofNat index % 2 = 0 ↔ index % 2 = 0 := by
    rw [← UInt64.toNat_inj, UInt64.toNat_mod, hindex]
    rfl
  constructor
  · exact congrArg Decimal.text hnext
  · rfl
  · rw [trade, toInt_price, hindex]
    push_cast
    norm_num
  · rw [trade, toInt_amount, hindex]
    push_cast
    norm_num
  · simp only [trade, heven]
    split <;> simp_all
  · change (1767225600000000000 : UInt64).toNat = _
    decide +kernel

/-- A generated fixture is read back without an error, trade by trade. -/
theorem readCapture_generateFixture (hJ : J.Lawful) {eventCount : UInt64}
    (hcount : 1 ≤ eventCount.toNat) (hproduct : 1 ≤ productId.length)
    (hlength : productId.length ≤ 20) (hutf8 : utf8 productId = true) (output path : String) :
    ∃ file, generateFixture J true true output eventCount productId = .ok file ∧
      (readCapture J path (some file)).outcome = .ok
        { frames := eventCount, parseErrors := 0, sequenceGaps := 0, outOfOrder := 0 } ∧
      (readCapture J path (some file)).delivered.length = eventCount.toNat ∧
      ∀ (index : Nat) (h : index < (readCapture J path (some file)).delivered.length),
        Generated productId index (readCapture J path (some file)).delivered[index] := by
  have hne := List.ne_nil_of_length_pos hproduct
  have hnonzero : eventCount ≠ 0 := by
    rintro rfl
    exact absurd hcount (by decide)
  have hlt := eventCount.toNat_lt
  have hfinal := finalState_linesOf hJ hne hlength hutf8 hlt
  have hpieces := pieces_terminated (newline_not_mem_linesOf (J := J) hutf8 eventCount.toNat)
  have hbounded : Bounded (pieces (terminated (linesOf J productId eventCount.toNat))) := by
    rw [hpieces]
    exact bounded_linesOf hlength _
  have hread := @readCapture_of_seen J path _ hbounded (by rw [hfinal]; rfl)
  rw [hfinal] at hread
  refine ⟨_, generateFixture_eq hJ hnonzero hne hlength hutf8 output, ?_⟩
  rw [hread]
  refine ⟨?_, by simp [stateAt], fun index h => ?_⟩
  · simp [stateAt, ReaderState.metrics]
  · have hindex : index < eventCount.toNat := by simpa [stateAt] using h
    simp only [stateAt, List.getElem_map, List.getElem_range]
    exact generated_trade (by omega)

theorem readCapture_generateFixture_escaped :
    ∃ file, generateFixture .reference true true "fixture.jsonl" 3 [quote, 0xC3, 0xA9] = .ok file ∧
      (readCapture .reference "fixture.jsonl" (some file)).outcome = .ok
        { frames := 3, parseErrors := 0, sequenceGaps := 0, outOfOrder := 0 } ∧
      (readCapture .reference "fixture.jsonl" (some file)).delivered.length = 3 ∧
      ∀ (index : Nat) (h : index < (readCapture .reference "fixture.jsonl"
          (some file)).delivered.length),
        Generated [quote, 0xC3, 0xA9] index
          (readCapture .reference "fixture.jsonl" (some file)).delivered[index] :=
  readCapture_generateFixture JsonLibrary.reference_lawful (by decide) (by decide) (by decide)
    (by decide) "fixture.jsonl" "fixture.jsonl"

end Generation

end BengalMarket.Fixture
