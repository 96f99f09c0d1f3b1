import BengalMarket.Capture.Publication

/-! Sending a payload over a WebSocket that takes a part of it at a time.  What the socket answers
and whether a stop was requested is a script, as for the rest of a capture. -/

namespace BengalMarket.Capture

inductive SendCode
  | ok
  | again
  | failed (error : String)
  deriving DecidableEq

structure SendAnswer (offered : Nat) where
  code : SendCode
  sent : Nat
  sent_le : sent ≤ offered

/-- One iteration of the loop; `before` and `after` are the stop requests that its wait sees. -/
structure SendCall where
  stop : Bool := false
  answer : (offered : Nat) → SendAnswer offered
  before : Bool := false
  wait : WaitResult := .ready
  after : Bool := false

structure Offer where
  offset : Nat
  data : Bytes
  answer : SendAnswer data.length

structure SendRun where
  offset : Nat
  exit : Exit
  offers : List Offer := []

/-- How `wait_socket` ends when only the stop requests count; `none` is a normal return. -/
def waitExit (before : Bool) (result : WaitResult) (after : Bool) : Option Exit :=
  (({ now := 0, file := [] } : Progress).waitSocket { stop := before } { stop := after } result).2

/-- The loop of `send_all`; the counts are natural numbers, as no sum is above the size of the
payload. -/
def sendLoop (payload : Bytes) (offset : Nat) : List SendCall → SendRun
  | [] =>
    if offset < payload.length then { offset := offset, exit := .pending }
    else { offset := offset, exit := .finished }
  | call :: rest =>
    if offset < payload.length then
      if call.stop then { offset := offset, exit := .stopped }
      else
        let data := payload.drop offset
        let answer := call.answer data.length
        let offer : Offer := ⟨offset, data, answer⟩
        match answer.code with
        | .again =>
          let offset := offset + answer.sent
          match if offset < payload.length then waitExit call.before call.wait call.after
            else none with
          | some exit => { offset := offset, exit := exit, offers := [offer] }
          | none =>
            let later := sendLoop payload offset rest
            { later with offers := offer :: later.offers }
        | .failed error =>
          { offset := offset, exit := .failed ("send WebSocket frame: " ++ error)
            offers := [offer] }
        | .ok =>
          if answer.sent = 0 then
            { offset := offset
              exit := .failed "WebSocket send made no progress"
              offers := [offer] }
          else
            let later := sendLoop payload (offset + answer.sent) rest
            { later with offers := offer :: later.offers }
    else { offset := offset, exit := .finished }

def sendAll (payload : Bytes) (calls : List SendCall) : SendRun := sendLoop payload 0 calls

namespace Offer

def taken (offer : Offer) : Nat :=
  match offer.answer.code with
  | .failed _ => 0
  | _ => offer.answer.sent

def accepted (offer : Offer) : Bytes := offer.data.take offer.taken

theorem taken_again {offset : Nat} {data : Bytes} {answer : SendAnswer data.length}
    (h : answer.code = .again) : (⟨offset, data, answer⟩ : Offer).taken = answer.sent := by
  rw [taken, h]

theorem taken_ok {offset : Nat} {data : Bytes} {answer : SendAnswer data.length}
    (h : answer.code = .ok) : (⟨offset, data, answer⟩ : Offer).taken = answer.sent := by
  rw [taken, h]

theorem taken_failed {offset : Nat} {data : Bytes} {answer : SendAnswer data.length}
    {error : String} (h : answer.code = .failed error) :
    (⟨offset, data, answer⟩ : Offer).taken = 0 := by
  rw [taken, h]

theorem taken_le (offer : Offer) : offer.taken ≤ offer.data.length := by
  unfold taken
  split
  · exact Nat.zero_le _
  · exact offer.answer.sent_le

end Offer

def acceptedOf (offers : List Offer) : Bytes := offers.flatMap Offer.accepted

inductive Sends (payload : Bytes) : Nat → List Offer → Nat → Prop
  | nil {offset : Nat} : Sends payload offset [] offset
  | cons {offset final : Nat} {offer : Offer} {offers : List Offer}
      (at_offset : offer.offset = offset) (inside : offset < payload.length)
      (data : offer.data = payload.drop offset)
      (later : Sends payload (offset + offer.taken) offers final) :
      Sends payload offset (offer :: offers) final

/-- The loop does not go on from the answer of the call. -/
inductive EndsBy (payload : Bytes) (offer : Offer) (call : SendCall) : Exit → Prop
  | refused {error : String} (code : offer.answer.code = .failed error) :
      EndsBy payload offer call (.failed ("send WebSocket frame: " ++ error))
  | stuck (code : offer.answer.code = .ok) (sent : offer.answer.sent = 0) :
      EndsBy payload offer call (.failed "WebSocket send made no progress")
  | waited {exit : Exit} (code : offer.answer.code = .again)
      (left : offer.offset + offer.answer.sent < payload.length)
      (wait : waitExit call.before call.wait call.after = some exit) :
      EndsBy payload offer call exit

/-- The loop is at its top, and its next call, if there is one, sees a stop request. -/
def Interrupted (calls : List SendCall) (run : SendRun) : Prop :=
  match calls[run.offers.length]? with
  | none => run.exit = .pending
  | some call => call.stop = true ∧ run.exit = .stopped

section Sends

variable {payload : Bytes} {offset final : Nat} {offers : List Offer}

theorem Sends.le (h : Sends payload offset offers final) : offset ≤ final := by
  induction h with
  | nil => exact Nat.le_refl _
  | cons _ _ _ _ ih => exact Nat.le_trans (Nat.le_add_right _ _) ih

theorem Sends.split {before after : List Offer} (h : Sends payload offset (before ++ after) final) :
    ∃ middle, Sends payload offset before middle ∧ Sends payload middle after final := by
  induction before generalizing offset with
  | nil => exact ⟨offset, .nil, h⟩
  | cons offer before ih =>
    cases h with
    | cons at_offset inside data later =>
      obtain ⟨middle, hbefore, hafter⟩ := ih later
      exact ⟨middle, .cons at_offset inside data hbefore, hafter⟩

theorem Sends.take_append (h : Sends payload offset offers final) :
    payload.take offset ++ acceptedOf offers = payload.take final := by
  induction h with
  | nil => exact List.append_nil _
  | @cons offset final offer offers at_offset inside data later ih =>
    rw [acceptedOf, List.flatMap_cons, ← List.append_assoc, Offer.accepted, data, ← List.take_add]
    exact ih

theorem Sends.final_le (h : Sends payload offset offers final) (hoffset : offset ≤ payload.length) :
    final ≤ payload.length := by
  induction h with
  | nil => exact hoffset
  | @cons offset final offer offers at_offset inside data later ih =>
    apply ih
    have htaken := offer.taken_le
    rw [data, List.length_drop] at htaken
    omega

theorem Sends.end_le (h : Sends payload offset offers final) {offer : Offer}
    (hoffer : offer ∈ offers) : offer.offset + offer.taken ≤ final := by
  induction h with
  | nil => cases hoffer
  | cons at_offset _ _ later ih =>
    rcases List.mem_cons.1 hoffer with rfl | hoffer
    · rw [at_offset]
      exact later.le
    · exact ih hoffer

theorem Sends.inside (h : Sends payload offset offers final) {offer : Offer}
    (hoffer : offer ∈ offers) :
    offer.offset < payload.length ∧ offer.data = payload.drop offer.offset := by
  induction h with
  | nil => cases hoffer
  | cons at_offset inside data _ ih =>
    rcases List.mem_cons.1 hoffer with rfl | hoffer
    · rw [at_offset]
      exact ⟨inside, data⟩
    · exact ih hoffer

end Sends

section Loop

variable {payload : Bytes}

theorem waitExit_ne_finished {before after : Bool} {result : WaitResult} {exit : Exit}
    (h : waitExit before result after = some exit) : exit ≠ .finished := by
  unfold waitExit Progress.waitSocket at h
  dsimp only at h
  split at h
  · cases h; simp
  · cases result with
    | unknownSocket | noSocket | pollFailed => cases h; simp
    | ready =>
      dsimp only at h
      split at h <;> cases h
      simp

theorem EndsBy.unique {offer : Offer} {call : SendCall} {exit exit' : Exit}
    (h : EndsBy payload offer call exit) (h' : EndsBy payload offer call exit') :
    exit = exit' := by
  cases h with
  | refused code =>
    cases h' with
    | refused code' => cases code.symm.trans code'; rfl
    | stuck code' | waited code' => cases code.symm.trans code'
  | stuck code =>
    cases h' with
    | stuck => rfl
    | refused code' | waited code' => cases code.symm.trans code'
  | waited code _ wait =>
    cases h' with
    | waited _ _ wait' => exact Option.some.inj (wait.symm.trans wait')
    | refused code' | stuck code' => cases code.symm.trans code'

theorem EndsBy.ne_finished {offer : Offer} {call : SendCall} {exit : Exit}
    (h : EndsBy payload offer call exit) : exit ≠ .finished := by
  cases h with
  | refused | stuck => simp
  | waited _ _ wait => exact waitExit_ne_finished wait

structure SendRun.Good (payload : Bytes) (offset : Nat) (calls : List SendCall) (run : SendRun) :
    Prop where
  sends : Sends payload offset run.offers run.offset
  returns : run.exit = .finished ↔ run.offset = payload.length
  answered : ∀ (i : Nat) (offer : Offer), run.offers[i]? = some offer → ∃ call : SendCall,
    calls[i]? = some call ∧ call.stop = false ∧ offer.answer = call.answer offer.data.length
  ended : ∀ (i : Nat) (offer : Offer) (call : SendCall) exit, run.offers[i]? = some offer →
    calls[i]? = some call → EndsBy payload offer call exit →
    run.offers.length = i + 1 ∧ run.exit = exit
  left : run.exit ≠ .finished → (∃ (i : Nat) (offer : Offer) (call : SendCall),
    run.offers[i]? = some offer ∧ calls[i]? = some call ∧ EndsBy payload offer call run.exit) ∨
      Interrupted calls run

section Good

variable {offset : Nat} {offer : Offer} {call : SendCall} {rest : List SendCall} {run : SendRun}

theorem SendRun.Good.idle {calls : List SendCall} {exit : Exit}
    (hreturns : exit = .finished ↔ offset = payload.length)
    (hleft : exit ≠ .finished → Interrupted calls { offset := offset, exit := exit }) :
    ({ offset := offset, exit := exit } : SendRun).Good payload offset calls where
  sends := .nil
  returns := hreturns
  answered i offer h := by simp at h
  ended i offer call exit h := by simp at h
  left h := Or.inr (hleft h)

theorem SendRun.Good.cons (at_offset : offer.offset = offset) (inside : offset < payload.length)
    (data : offer.data = payload.drop offset) (hstop : call.stop = false)
    (hanswer : offer.answer = call.answer offer.data.length)
    (hgoes : ∀ exit, ¬ EndsBy payload offer call exit)
    (h : run.Good payload (offset + offer.taken) rest) :
    ({ run with offers := offer :: run.offers } : SendRun).Good payload offset (call :: rest) where
  sends := .cons at_offset inside data h.sends
  returns := h.returns
  answered i later hlater := by
    cases i with
    | zero =>
      cases hlater
      exact ⟨call, rfl, hstop, hanswer⟩
    | succ i => exact h.answered i later hlater
  ended i later at_call exit hlater hcall hends := by
    cases i with
    | zero =>
      cases hlater
      cases hcall
      exact absurd hends (hgoes exit)
    | succ i =>
      obtain ⟨hlength, hexit⟩ := h.ended i later at_call exit hlater hcall hends
      exact ⟨congrArg (· + 1) hlength, hexit⟩
  left hexit := by
    rcases h.left hexit with ⟨i, later, at_call, hlater, hcall, hends⟩ | hinterrupted
    · exact Or.inl ⟨i + 1, later, at_call, hlater, hcall, hends⟩
    · exact Or.inr hinterrupted

theorem SendRun.Good.last {exit : Exit} (at_offset : offer.offset = offset)
    (inside : offset < payload.length) (data : offer.data = payload.drop offset)
    (hstop : call.stop = false) (hanswer : offer.answer = call.answer offer.data.length)
    (hends : EndsBy payload offer call exit) (hleft : offset + offer.taken < payload.length) :
    ({ offset := offset + offer.taken, exit := exit, offers := [offer] } : SendRun).Good
      payload offset (call :: rest) where
  sends := .cons at_offset inside data .nil
  returns := iff_of_false hends.ne_finished (Nat.ne_of_lt hleft)
  answered i later hlater := by
    cases i with
    | zero =>
      cases hlater
      exact ⟨call, rfl, hstop, hanswer⟩
    | succ i => simp at hlater
  ended i later at_call exit' hlater hcall hends' := by
    cases i with
    | zero =>
      cases hlater
      cases hcall
      exact ⟨rfl, hends.unique hends'⟩
    | succ i => simp at hlater
  left _ := Or.inl ⟨0, offer, call, rfl, rfl, hends⟩

theorem SendRun.Good.refused {exit : Exit} (at_offset : offer.offset = offset)
    (inside : offset < payload.length) (data : offer.data = payload.drop offset)
    (hstop : call.stop = false) (hanswer : offer.answer = call.answer offer.data.length)
    (hends : EndsBy payload offer call exit) (hnone : offer.taken = 0) :
    ({ offset := offset, exit := exit, offers := [offer] } : SendRun).Good
      payload offset (call :: rest) := by
  have hlast := @Good.last payload offset offer call rest exit at_offset inside data hstop hanswer
    hends (by rwa [hnone])
  rwa [hnone] at hlast

end Good

theorem good_sendLoop {offset : Nat} (hoffset : offset ≤ payload.length) (calls : List SendCall) :
    (sendLoop payload offset calls).Good payload offset calls := by
  induction calls generalizing offset with
  | nil =>
    rw [sendLoop]
    split
    · rename_i hlt
      exact .idle (iff_of_false (by simp) (Nat.ne_of_lt hlt)) fun _ => rfl
    · rename_i hnot
      exact .idle (iff_of_true rfl (by omega)) fun h => absurd rfl h
  | cons call rest ih =>
    rw [sendLoop]
    by_cases hlt : offset < payload.length
    · rw [if_pos hlt]
      dsimp only
      split
      · rename_i hstop
        exact .idle (iff_of_false (by simp) (Nat.ne_of_lt hlt)) fun _ => ⟨hstop, rfl⟩
      · rename_i hstop
        have hruns : call.stop = false := Bool.eq_false_iff.2 hstop
        generalize hanswer : call.answer (payload.drop offset).length = answer
        replace hanswer := hanswer.symm
        have hsent : answer.sent ≤ payload.length - offset :=
          Nat.le_trans answer.sent_le (Nat.le_of_eq List.length_drop)
        cases hcode : answer.code with
        | again =>
          have hgoes := @ih (offset + answer.sent) (by omega)
          rw [← Offer.taken_again hcode] at hgoes ⊢
          dsimp only
          split
          · rename_i exit hwait
            split at hwait
            · rename_i hleft
              rw [Offer.taken_again hcode] at hleft
              exact .last rfl hlt rfl hruns hanswer (.waited hcode hleft hwait)
                (by rwa [Offer.taken_again hcode])
            · cases hwait
          · rename_i hwait
            refine hgoes.cons rfl hlt rfl hruns hanswer fun exit hends => ?_
            cases hends with
            | refused code | stuck code => cases hcode.symm.trans code
            | waited _ left wait =>
              rw [Offer.taken_again hcode, if_pos left, wait] at hwait
              cases hwait
        | failed error =>
          exact .refused rfl hlt rfl hruns hanswer (.refused hcode) (Offer.taken_failed hcode)
        | ok =>
          dsimp only
          split
          · rename_i hzero
            exact .refused rfl hlt rfl hruns hanswer (.stuck hcode hzero)
              ((Offer.taken_ok hcode).trans hzero)
          · rename_i hpositive
            have hgoes := @ih (offset + answer.sent) (by omega)
            rw [← Offer.taken_ok hcode] at hgoes ⊢
            refine hgoes.cons rfl hlt rfl hruns hanswer fun exit hends => ?_
            cases hends with
            | stuck _ sent => exact hpositive sent
            | refused code | waited code => cases hcode.symm.trans code
    · rw [if_neg hlt]
      exact .idle (iff_of_true rfl (by omega)) fun h => absurd rfl h

end Loop

/-- Every byte of the payload is taken at most once and in its place, and all of them if and only if
the call returns normally.  Each offer is answered by its call, and the loop goes on until an answer
ends it, a call sees a stop request or nothing is left to be offered. -/
structure DeliversOnce (payload : Bytes) (calls : List SendCall) (run : SendRun) : Prop where
  counted : (acceptedOf run.offers).length = run.offset
  accepted : acceptedOf run.offers = payload.take run.offset
  moments : ∀ before offer after, run.offers = before ++ offer :: after →
    acceptedOf before = payload.take offer.offset
  offered : ∀ offer ∈ run.offers, offer.data ≠ [] ∧ offer.data = payload.drop offer.offset ∧
    offer.offset + offer.data.length = payload.length
  once : ∀ before offer after, run.offers = before ++ offer :: after →
    ∀ earlier ∈ before, earlier.offset + earlier.taken ≤ offer.offset
  answered : ∀ (i : Nat) (offer : Offer), run.offers[i]? = some offer → ∃ call : SendCall,
    calls[i]? = some call ∧ call.stop = false ∧ offer.answer = call.answer offer.data.length
  ended : ∀ (i : Nat) (offer : Offer) (call : SendCall) exit, run.offers[i]? = some offer →
    calls[i]? = some call → EndsBy payload offer call exit →
    run.offers.length = i + 1 ∧ run.exit = exit
  returns : run.exit = .finished ↔ acceptedOf run.offers = payload
  left : run.exit ≠ .finished → (∃ (i : Nat) (offer : Offer) (call : SendCall),
    run.offers[i]? = some offer ∧ calls[i]? = some call ∧ EndsBy payload offer call run.exit) ∨
      Interrupted calls run

theorem SendRun.Good.delivers {payload : Bytes} {calls : List SendCall} {run : SendRun}
    (h : run.Good payload 0 calls) : acceptedOf run.offers = payload.take run.offset ∧
      (run.exit = .finished ↔ acceptedOf run.offers = payload) := by
  have hall := h.sends.take_append
  rw [List.take_zero, List.nil_append] at hall
  refine ⟨hall, ?_⟩
  have hfinal := h.sends.final_le (Nat.zero_le _)
  rw [h.returns, hall]
  constructor
  · intro hlength
    rw [hlength, List.take_length]
  · intro htake
    have hlength := congrArg List.length htake
    rw [List.length_take] at hlength
    omega

theorem sendAll_delivers_once (payload : Bytes) (calls : List SendCall) :
    DeliversOnce payload calls (sendAll payload calls) := by
  have hgood := good_sendLoop (Nat.zero_le payload.length) calls
  have hsends := hgood.sends
  obtain ⟨hall, hreturns⟩ := hgood.delivers
  refine ⟨?_, hall, ?_, ?_, ?_, hgood.answered, hgood.ended, hreturns, hgood.left⟩
  · have hfinal := hsends.final_le (Nat.zero_le _)
    rw [sendAll, hall, List.length_take, Nat.min_eq_left hfinal]
  · intro before offer after hsplit
    obtain ⟨middle, hbefore, hafter⟩ := (hsplit ▸ hsends :
      Sends payload 0 (before ++ offer :: after) _).split
    cases hafter with
    | cons at_offset _ _ _ =>
      have htaken := hbefore.take_append
      rwa [List.take_zero, List.nil_append, ← at_offset] at htaken
  · intro offer hoffer
    obtain ⟨hinside, hdata⟩ := hsends.inside hoffer
    have hlength : offer.data.length = payload.length - offer.offset := by
      rw [hdata, List.length_drop]
    exact ⟨List.ne_nil_of_length_pos (by omega), hdata, by omega⟩
  · intro before offer after hsplit earlier hearlier
    obtain ⟨middle, hbefore, hafter⟩ := (hsplit ▸ hsends :
      Sends payload 0 (before ++ offer :: after) _).split
    cases hafter with
    | cons at_offset _ _ _ =>
      rw [at_offset]
      exact hbefore.end_le hearlier

def takes (code : SendCode) (count : Nat) : SendCall where
  answer offered := ⟨code, min count offered, Nat.min_le_right ..⟩

def inParts : List SendCall := [takes .again 2, takes .ok 1, takes .again 9]

theorem sendAll_delivers_once_inParts :
    DeliversOnce (ascii "trade") inParts (sendAll (ascii "trade") inParts) ∧
      (sendAll (ascii "trade") inParts).offers.map Offer.taken = [2, 1, 2] ∧
      (sendAll (ascii "trade") inParts).exit = .finished :=
  ⟨sendAll_delivers_once (ascii "trade") inParts, by decide, rfl⟩

section Subscriptions

open JsonText

variable {Double : Type}

variable (J : JsonLibrary) (options : CaptureOptions)

variable {J options}

end Subscriptions

end BengalMarket.Capture
