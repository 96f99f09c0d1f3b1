import BengalMarket.Reader.Core

namespace BengalMarket

namespace Reader

def text? {Double : Type} (value : Json Double) (key : String) : Option Bytes :=
  (value.at? (ascii key)).bind Json.string?

def number? (J : JsonLibrary) (value : J.Value) (key : String) : Option UInt64 :=
  (value.at? (ascii key)).bind J.uint64?

section Accessors

variable {J : JsonLibrary} {α β : Type}

theorem bind_eq_ok_iff {x : Except ReadError α} {f : α → Except ReadError β} {b : β} :
    x >>= f = .ok b ↔ ∃ a, x = .ok a ∧ f a = .ok b := by
  cases x with
  | error error => simp [bind, Except.bind]
  | ok a => simp [bind, Except.bind]

theorem accessor_eq_ok_iff {value : Option α} {a : α} :
    accessor value = .ok a ↔ value = some a := by
  cases value <;> simp [accessor]

theorem parsed_eq_ok_iff {value : Option α} {a : α} : parsed value = .ok a ↔ value = some a := by
  cases value <;> simp [parsed]

theorem require_eq_ok_iff {condition : Bool} {error : ReadError} {u : Unit} :
    require condition error = .ok u ↔ condition = true := by
  cases condition <;> simp [require]

theorem member_eq_ok_iff {value found : J.Value} {key : String} :
    member J value key = .ok found ↔ value.at? (ascii key) = some found := accessor_eq_ok_iff

theorem memberString_eq_ok_iff {value : J.Value} {key : String} {text : Bytes} :
    memberString J value key = .ok text ↔ text? value key = some text := by
  rw [memberString, bind_eq_ok_iff, text?, Option.bind_eq_some_iff]
  simp only [member_eq_ok_iff, accessor_eq_ok_iff]

theorem memberUInt64_eq_ok_iff {value : J.Value} {key : String} {number : UInt64} :
    memberUInt64 J value key = .ok number ↔ number? J value key = some number := by
  rw [memberUInt64, bind_eq_ok_iff, number?, Option.bind_eq_some_iff]
  simp only [member_eq_ok_iff, accessor_eq_ok_iff]

theorem equalsString_iff {expected : String} {value : J.Value} :
    equalsString J expected value = true ↔ value.string? = some (ascii expected) := by
  cases value <;> simp [equalsString, Json.string?]

end Accessors

variable (J : JsonLibrary)

def record? (line : Bytes) : Option J.Value :=
  if line = [] then none else J.parse line

structure ValidProductId (productId : J.Value) (text : Bytes) : Prop where
  string : productId.string? = some text
  nonempty : 1 ≤ text.length
  short : text.length ≤ 20

structure ValidMetadata (record : J.Value) : Prop where
  type : text? record "type" = some (ascii "metadata")
  format : text? record "format" = some (ascii "bengal-market-capture")
  version : ∃ version, record.at? (ascii "version") = some version ∧ J.equals 1 version = true
  source : ∃ source, text? record "source" = some source
  productIds : ∃ productIds, record.at? (ascii "product_ids") = some (.array productIds) ∧
    productIds ≠ [] ∧ ∀ productId ∈ productIds, ∃ text, ValidProductId J productId text

structure ValidTrade (input : J.Value) : Prop where
  price : ∃ text, text? input "price" = some text ∧ (parseDecimal text).isSome
  size : ∃ text, text? input "size" = some text ∧ (parseDecimal text).isSome
  side : text? input "side" = some (ascii "BUY") ∨ text? input "side" = some (ascii "SELL")
  time : ∃ text, text? input "time" = some text ∧ (parseTimestampNs text).isSome
  tradeId : ∃ text, text? input "trade_id" = some text ∧ text.length ≤ 24
  productId : ∃ text, text? input "product_id" = some text ∧ text.length ≤ 20

def ValidEvent (event : J.Value) : Prop :=
  ∃ trades, event.at? (ascii "trades") = some trades ∧ ∀ input ∈ trades.children, ValidTrade J input

def ValidEvents (payload : J.Value) : Prop :=
  ∃ events, payload.at? (ascii "events") = some events ∧
    ∀ event ∈ events.children, ValidEvent J event

structure ValidEnvelope (record : J.Value) (envelope : Envelope J) : Prop where
  received : ∃ received, number? J record "received_ns" = some received
  connection : number? J record "connection_id" = some envelope.connectionId
  payload : ∃ text, text? record "payload" = some text ∧ J.parse text = some envelope.payload
  channel : text? envelope.payload "channel" = some envelope.channel
  sequence : match envelope.sequence with
    | some sequence => number? J envelope.payload "sequence_num" = some sequence
    | none => envelope.payload.at? (ascii "sequence_num") = none ∧
        envelope.channel ≠ ascii "market_trades" ∧ envelope.channel ≠ ascii "heartbeats"

def IsFrame {Double : Type} (record : Json Double) : Prop :=
  text? record "type" = some (ascii "frame")

structure ValidFrame (record : J.Value) : Prop where
  type : IsFrame record
  envelope : ∃ envelope, ValidEnvelope J record envelope ∧
    (envelope.sequence.isSome → envelope.channel = ascii "market_trades" →
      ValidEvents J envelope.payload)

variable {J}

theorem ValidEnvelope.unique {record : J.Value} {e f : Envelope J}
    (he : ValidEnvelope J record e) (hf : ValidEnvelope J record f) : e = f := by
  obtain ⟨connectionId, payload, channel, sequence⟩ := e
  obtain ⟨connectionId', payload', channel', sequence'⟩ := f
  obtain ⟨-, hconnection, ⟨text, htext, hparse⟩, hchannel, hsequence⟩ := he
  obtain ⟨-, hconnection', ⟨text', htext', hparse'⟩, hchannel', hsequence'⟩ := hf
  cases hconnection.symm.trans hconnection'
  cases htext.symm.trans htext'
  cases hparse.symm.trans hparse'
  cases hchannel.symm.trans hchannel'
  cases sequence <;> cases sequence' <;> simp_all [number?]

theorem readProductId_eq_ok_iff {productId : J.Value} :
    readProductId J productId = .ok () ↔ ∃ text, ValidProductId J productId text := by
  simp only [readProductId, bind_eq_ok_iff, accessor_eq_ok_iff, require_eq_ok_iff]
  constructor
  · rintro ⟨text, htext, hlength⟩
    simp only [Bool.not_eq_true', Bool.or_eq_false_iff, List.isEmpty_eq_false_iff,
      decide_eq_false_iff_not, Nat.not_lt] at hlength
    exact ⟨text, htext, List.length_pos_iff.2 hlength.1, hlength.2⟩
  · rintro ⟨text, htext, hnonempty, hshort⟩
    refine ⟨text, htext, ?_⟩
    simp [List.length_pos_iff.1 hnonempty, hshort]

theorem readProductIds_eq_ok_iff {productIds : List J.Value} :
    readProductIds J productIds = .ok () ↔
      ∀ productId ∈ productIds, ∃ text, ValidProductId J productId text := by
  induction productIds with
  | nil => simp [readProductIds]
  | cons productId rest ih =>
    rw [readProductIds, bind_eq_ok_iff, List.forall_mem_cons, ← ih, ← readProductId_eq_ok_iff]
    exact ⟨fun ⟨(), hfirst, hrest⟩ => ⟨hfirst, hrest⟩, fun ⟨hfirst, hrest⟩ => ⟨(), hfirst, hrest⟩⟩

theorem isArray_and_children {value : J.Value} :
    (value.isArray && !value.children.isEmpty) = true ↔
      ∃ elements, value = .array elements ∧ elements ≠ [] := by
  cases value <;> simp [Json.isArray, Json.children]

theorem readMetadata_eq_ok_iff {record : J.Value}
    (htype : text? record "type" = some (ascii "metadata")) :
    readMetadata J false record = .ok () ↔ ValidMetadata J record := by
  simp only [readMetadata, bind_eq_ok_iff, member_eq_ok_iff, memberString_eq_ok_iff,
    require_eq_ok_iff, readProductIds_eq_ok_iff, equalsString_iff, isArray_and_children]
  constructor
  · rintro ⟨-, -, format, hformat, -, hequal, version, hversion, -, hone, source, hsource,
      productIds, hproductIds, -, ⟨elements, rfl, hne⟩, hall⟩
    exact ⟨htype, Option.bind_eq_some_iff.2 ⟨format, hformat, hequal⟩, ⟨version, hversion, hone⟩,
      ⟨source, hsource⟩, elements, hproductIds, hne, hall⟩
  · rintro ⟨-, hformat, ⟨version, hversion, hone⟩, ⟨source, hsource⟩, elements, hproductIds, hne,
      hall⟩
    obtain ⟨format, hformat, hequal⟩ := Option.bind_eq_some_iff.1 hformat
    exact ⟨(), rfl, format, hformat, (), hequal, version, hversion, (), hone, source, hsource,
      _, hproductIds, (), ⟨elements, rfl, hne⟩, hall⟩

theorem readMetadata_of_seen {record : J.Value} :
    readMetadata J true record = .error .unsupportedMetadata := rfl

theorem readSequence_eq_ok_iff {payload : J.Value} {channel : Bytes} {sequence : Option UInt64} :
    readSequence J payload channel = .ok sequence ↔
      match sequence with
      | some sequence => number? J payload "sequence_num" = some sequence
      | none => payload.at? (ascii "sequence_num") = none ∧
          channel ≠ ascii "market_trades" ∧ channel ≠ ascii "heartbeats" := by
  rw [readSequence, Json.contains_eq_isSome]
  cases hfield : payload.at? (ascii "sequence_num") with
  | none =>
    cases sequence with
    | none => simp [bind_eq_ok_iff, require_eq_ok_iff, isDataChannel]
    | some sequence => simp [bind_eq_ok_iff, number?, hfield]
  | some value =>
    cases sequence with
    | none => simp [bind_eq_ok_iff]
    | some sequence => simp [bind_eq_ok_iff, memberUInt64_eq_ok_iff]

theorem readEnvelope_eq_ok_iff {record : J.Value} {envelope : Envelope J} :
    readEnvelope J record = .ok envelope ↔ ValidEnvelope J record envelope := by
  simp only [readEnvelope, bind_eq_ok_iff, memberUInt64_eq_ok_iff, memberString_eq_ok_iff,
    accessor_eq_ok_iff, readSequence_eq_ok_iff]
  constructor
  · rintro ⟨received, hreceived, connection, hconnection, text, htext, payload, hpayload,
      channel, hchannel, sequence, hsequence, hok⟩
    cases hok
    exact ⟨⟨received, hreceived⟩, hconnection, ⟨text, htext, hpayload⟩, hchannel, hsequence⟩
  · rintro ⟨⟨received, hreceived⟩, hconnection, ⟨text, htext, hpayload⟩, hchannel, hsequence⟩
    exact ⟨received, hreceived, _, hconnection, text, htext, _, hpayload, _, hchannel, _,
      hsequence, rfl⟩

theorem readSide_isOk_iff {side : Bytes} :
    (∃ value, readSide side = .ok value) ↔ side = ascii "BUY" ∨ side = ascii "SELL" := by
  unfold readSide
  by_cases hbuy : side = ascii "BUY"
  · simp [hbuy]
  · by_cases hsell : side = ascii "SELL"
    · rw [if_neg hbuy, if_pos hsell]
      simp [hsell]
    · simp [hbuy, hsell]

def tradeOf (J : JsonLibrary) (input : J.Value) : Option Trade := (readTrade J input).toOption

theorem tradeOf_eq_some_iff {input : J.Value} {value : Trade} :
    tradeOf J input = some value ↔ readTrade J input = .ok value := by
  unfold tradeOf
  cases readTrade J input <;> simp [Except.toOption]

theorem tradeOf_isSome_iff {input : J.Value} :
    (tradeOf J input).isSome ↔ ValidTrade J input := by
  rw [Option.isSome_iff_exists]
  simp only [tradeOf_eq_some_iff, readTrade, bind_eq_ok_iff, memberString_eq_ok_iff,
    parsed_eq_ok_iff]
  constructor
  · rintro ⟨value, price, hprice, size, hsize, side, hside, time, htime, price', hprice', size',
      hsize', time', htime', tradeId, htradeId, tradeId', htradeId', productId, hproductId,
      productId', hproductId', side', hside', -⟩
    refine ⟨⟨price, hprice, by simp [hprice']⟩, ⟨size, hsize, by simp [hsize']⟩, ?_,
      ⟨time, htime, by simp [htime']⟩, ⟨tradeId, htradeId, ?_⟩, ⟨productId, hproductId, ?_⟩⟩
    · rw [hside]
      simpa using readSide_isOk_iff.1 ⟨side', hside'⟩
    · exact BoundedText.assign_isSome_iff.1 (by simp [htradeId'])
    · exact BoundedText.assign_isSome_iff.1 (by simp [hproductId'])
  · rintro ⟨⟨price, hprice, hprice'⟩, ⟨size, hsize, hsize'⟩, hside, ⟨time, htime, htime'⟩,
      ⟨tradeId, htradeId, hshort⟩, ⟨productId, hproductId, hshort'⟩⟩
    obtain ⟨price', hprice'⟩ := Option.isSome_iff_exists.1 hprice'
    obtain ⟨size', hsize'⟩ := Option.isSome_iff_exists.1 hsize'
    obtain ⟨time', htime'⟩ := Option.isSome_iff_exists.1 htime'
    obtain ⟨tradeId', htradeId'⟩ :=
      Option.isSome_iff_exists.1 ((@BoundedText.assign_isSome_iff 24 _).2 hshort)
    obtain ⟨productId', hproductId'⟩ :=
      Option.isSome_iff_exists.1 ((@BoundedText.assign_isSome_iff 20 _).2 hshort')
    obtain ⟨side, hside, side', hside'⟩ : ∃ side, text? input "side" = some side ∧
        ∃ value, readSide side = .ok value := by
      rcases hside with hside | hside
      · exact ⟨_, hside, readSide_isOk_iff.2 (Or.inl rfl)⟩
      · exact ⟨_, hside, readSide_isOk_iff.2 (Or.inr rfl)⟩
    exact ⟨_, price, hprice, size, hsize, side, hside, time, htime, price', hprice', size', hsize',
      time', htime', tradeId, htradeId, tradeId', htradeId', productId, hproductId, productId',
      hproductId', side', hside', rfl⟩

/-- What the nested loops over events and trades visit: a trade, or `none` where a check
throws.  Nothing is visited after a throw. -/
def visits (J : JsonLibrary) (events : List J.Value) : List (Option Trade) :=
  events.flatMap fun event => match event.at? (ascii "trades") with
    | none => [none]
    | some trades => trades.children.map (tradeOf J)

def leading : List (Option Trade) → List Trade
  | some value :: rest => value :: leading rest
  | _ => []

theorem leading_append_of_all {xs : List (Option Trade)} (h : none ∉ xs)
    (ys : List (Option Trade)) : leading (xs ++ ys) = leading xs ++ leading ys := by
  induction xs with
  | nil => rfl
  | cons x xs ih =>
    cases x with
    | none => simp at h
    | some value =>
      have hrest : none ∉ xs := fun hmem => h (List.mem_cons_of_mem _ hmem)
      simp [leading, ih hrest]

theorem leading_append_of_mem {xs : List (Option Trade)} (h : none ∈ xs)
    (ys : List (Option Trade)) : leading (xs ++ ys) = leading xs := by
  induction xs with
  | nil => cases h
  | cons x xs ih =>
    cases x with
    | none => rfl
    | some value => simp [leading, ih (by simpa using h)]

theorem readTrades_spec (inputs : List J.Value) :
    (readTrades J inputs).1 = leading (inputs.map (tradeOf J)) ∧
      ((readTrades J inputs).2 = none ↔ none ∉ inputs.map (tradeOf J)) := by
  induction inputs with
  | nil => simp [readTrades, leading]
  | cons input rest ih =>
    rw [readTrades]
    cases hread : readTrade J input with
    | error error => simp [tradeOf, hread, Except.toOption, leading]
    | ok value => simp [tradeOf_eq_some_iff.2 hread, leading, ih]

theorem readEvents_spec (events : List J.Value) :
    (readEvents J events).1 = leading (visits J events) ∧
      ((readEvents J events).2 = none ↔ none ∉ visits J events) := by
  induction events with
  | nil => simp [readEvents, visits, leading]
  | cons event rest ih =>
    rw [readEvents, visits, List.flatMap_cons, ← visits]
    cases hfield : event.at? (ascii "trades") with
    | none => simp [member, hfield, accessor, leading]
    | some trades =>
      obtain ⟨hvalues, hnone⟩ := readTrades_spec trades.children
      simp only [member, hfield, accessor]
      rcases hread : readTrades J trades.children with ⟨values, _ | error⟩
      · rw [hread] at hvalues hnone
        simp only [true_iff] at hnone hvalues
        simp [leading_append_of_all hnone, ih, hvalues, hnone]
      · rw [hread] at hvalues hnone
        have hmem : none ∈ trades.children.map (tradeOf J) := by simpa using hnone
        simpa [leading_append_of_mem hmem, hmem] using hvalues

theorem not_mem_visits_iff {events : List J.Value} :
    none ∉ visits J events ↔ ∀ event ∈ events, ValidEvent J event := by
  simp only [visits, List.mem_flatMap, not_exists, not_and]
  apply forall₂_congr
  intro event _
  cases hfield : event.at? (ascii "trades") with
  | none => simp [ValidEvent, hfield]
  | some trades =>
    simp only [ValidEvent, hfield, Option.some.injEq, exists_eq_left', ← tradeOf_isSome_iff,
      List.mem_map, not_exists, not_and]
    apply forall₂_congr
    intro input _
    rw [← ne_eq, Option.ne_none_iff_isSome]

def Envelope.visits (envelope : Envelope J) : List (Option Trade) :=
  if envelope.channel = ascii "market_trades" then
    match envelope.payload.at? (ascii "events") with
    | none => [none]
    | some events => Reader.visits J events.children
  else []

theorem readPayload_spec (envelope : Envelope J) :
    (readPayload J envelope).1 = leading envelope.visits ∧
      ((readPayload J envelope).2 = none ↔ none ∉ envelope.visits) := by
  unfold readPayload Envelope.visits
  by_cases hchannel : envelope.channel = ascii "market_trades"
  · rw [if_neg (not_not.2 hchannel), if_pos hchannel]
    cases hfield : envelope.payload.at? (ascii "events") with
    | none => simp [member, hfield, accessor, leading]
    | some events => simpa [member, hfield, accessor] using readEvents_spec events.children
  · simp [hchannel, leading]

theorem Envelope.not_mem_visits_iff {envelope : Envelope J} :
    none ∉ envelope.visits ↔
      (envelope.channel = ascii "market_trades" → ValidEvents J envelope.payload) := by
  unfold Envelope.visits
  by_cases hchannel : envelope.channel = ascii "market_trades"
  · cases hfield : envelope.payload.at? (ascii "events") with
    | none => simp [hchannel, ValidEvents, hfield]
    | some events => simp [hchannel, ValidEvents, hfield, Reader.not_mem_visits_iff]
  · simp [hchannel]

end Reader

end BengalMarket
