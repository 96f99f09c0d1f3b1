import BengalMarket.Library.Lines
import BengalMarket.Model

/-! The output of a capture: writes to a `.part` file and its publication.  The answers of
the kernel are part of the input; `none` is success. -/

namespace BengalMarket.Capture

/-- One `write`: the value it returns, whether `errno` is `EINTR`, and `strerror(errno)`. -/
structure WriteResult where
  value : Int
  interrupted : Bool := false
  error : String := ""
  deriving DecidableEq

def temporary (destination : String) : String := destination ++ ".part"

theorem temporary_ne (destination : String) : temporary destination ≠ destination := by
  intro h
  have hlength := congrArg String.length h
  rw [temporary, String.length_append] at hlength
  have hsuffix : ".part".length = 5 := by decide
  omega

def systemError (operation path error : String) : String :=
  operation ++ ": " ++ path ++ ": " ++ error

/-- What a call of `write` leaves: the bytes the kernel took, the answers not yet used, and
the exception. -/
structure Written where
  accepted : Bytes
  results : List WriteResult
  error : Option String

/-- The loop of `write`.  When there are no answers left, the rest is taken at once. -/
def write (path : String) (data : Bytes) : List WriteResult → Written
  | [] => ⟨data, [], none⟩
  | result :: results =>
    if data = [] then ⟨[], result :: results, none⟩
    else if result.value < 0 && result.interrupted then write path data results
    else if result.value ≤ 0 then
      ⟨[], results, some (systemError "failed writing partial output" path result.error)⟩
    else
      let later := write path (data.drop result.value.toNat) results
      { later with accepted := data.take result.value.toNat ++ later.accepted }

def writeLine (path : String) (line : Bytes) (results : List WriteResult) : Written :=
  let first := write path line results
  match first.error with
  | some _ => first
  | none =>
    let second := write path [Lines.newline] first.results
    { second with accepted := first.accepted ++ second.accepted }

structure CommitResults where
  sync : Option String := none
  close : Option String := none
  link : Option String := none
  unlink : Option String := none
  openDirectory : Option String := none
  syncDirectory : Option String := none
  closeDirectory : Option String := none

def parentPath (destination : String) : String :=
  let above := destination.toList.reverse.dropWhile (· != '/')
  if above = [] then "."
  else
    let trimmed := above.dropWhile (· == '/')
    if trimmed = [] then "/" else String.ofList trimmed.reverse

def syncParent (destination : String) (r : CommitResults) : Option String :=
  let parent := parentPath destination
  match r.openDirectory, r.syncDirectory, r.closeDirectory with
  | some error, _, _ => some (systemError "failed opening output directory" parent error)
  | none, some error, _ => some (systemError "failed syncing output directory" parent error)
  | none, none, some error => some (systemError "failed closing output directory" parent error)
  | none, none, none => none

def commit (destination : String) (r : CommitResults) : Bool × Option String :=
  match r.sync, r.close, r.link, r.unlink with
  | some error, _, _, _ =>
    (false, some (systemError "failed syncing partial output" (temporary destination) error))
  | none, some error, _, _ =>
    (false, some (systemError "failed closing partial output" (temporary destination) error))
  | none, none, some error, _ =>
    (false, some (systemError "failed publishing output" destination error))
  | none, none, none, some error =>
    (true, some (systemError "published output but failed removing partial output"
      (temporary destination) error))
  | none, none, none, none => (true, syncParent destination r)

section Write

variable {path : String}

theorem write_spec (data : Bytes) (results : List WriteResult) :
    (write path data results).accepted <+: data ∧
      ((write path data results).error = none ↔ (write path data results).accepted = data) := by
  induction results generalizing data with
  | nil => simp [write]
  | cons result results ih =>
    rw [write]
    split
    · rename_i hnil
      simp [hnil]
    · rename_i hne
      split
      · exact ih data
      · split
        · exact ⟨List.nil_prefix, by simp [Ne.symm hne]⟩
        · obtain ⟨hpre, herror⟩ := ih (data.drop result.value.toNat)
          have hsplit := List.take_append_drop result.value.toNat data
          dsimp only
          refine ⟨?_, ?_⟩
          · have hjoin := (List.prefix_append_right_inj (data.take result.value.toNat)).2 hpre
            rwa [hsplit] at hjoin
          · rw [herror]
            constructor
            · intro hall
              rw [hall, hsplit]
            · intro hall
              exact List.append_cancel_left (hall.trans hsplit.symm)

theorem writeLine_spec (line : Bytes) (results : List WriteResult) :
    (writeLine path line results).accepted <+: line ++ [Lines.newline] ∧
      ((writeLine path line results).error = none ↔
        (writeLine path line results).accepted = line ++ [Lines.newline]) := by
  obtain ⟨hfirst, herror⟩ := @write_spec path line results
  rw [writeLine]
  cases hcase : (write path line results).error with
  | some error =>
    simp only [hcase]
    refine ⟨hfirst.trans (List.prefix_append _ _), ?_⟩
    have hlength := hfirst.length_le
    simp only [reduceCtorEq, false_iff]
    intro hall
    rw [hall, List.length_append, List.length_singleton] at hlength
    omega
  | none =>
    obtain ⟨hsecond, herror'⟩ :=
      @write_spec path [Lines.newline] (write path line results).results
    have hall := herror.1 hcase
    simp only [hall, List.prefix_append_right_inj, List.append_cancel_left_eq]
    exact ⟨hsecond, herror'⟩

def Succeeds (results : List WriteResult) : Prop :=
  ∀ result ∈ results, 0 < result.value ∨ result.value < 0 ∧ result.interrupted = true

theorem write_of_succeeds {data : Bytes} {results : List WriteResult} (h : Succeeds results) :
    (write path data results).error = none ∧ Succeeds (write path data results).results := by
  induction results generalizing data with
  | nil => exact ⟨rfl, h⟩
  | cons result results ih =>
    have hresult := h result (by simp)
    have hrest : Succeeds results := fun r hr => h r (by simp [hr])
    rw [write]
    split
    · exact ⟨rfl, h⟩
    · split
      · exact ih hrest
      · rename_i hinterrupted
        rcases hresult with hpos | hretry
        · rw [if_neg (Int.not_le.2 hpos)]
          exact ih hrest
        · simp [hretry] at hinterrupted

theorem writeLine_of_succeeds {line : Bytes} {results : List WriteResult} (h : Succeeds results) :
    (writeLine path line results).error = none := by
  obtain ⟨herror, hrest⟩ := @write_of_succeeds path line _ h
  rw [writeLine, herror]
  exact (write_of_succeeds hrest).1

theorem commit_of_published {destination : String} {r : CommitResults}
    (h : (commit destination r).2 = none) : (commit destination r).1 = true := by
  unfold commit at h ⊢
  split <;> simp_all

end Write

end BengalMarket.Capture
