import BengalMarket.Cli.Main

namespace BengalMarket.Cli

variable {J : JsonLibrary} (dumpIndented : Nat → J.Value → Except String Bytes)
  (bengalVersion version : String) (operations : Operations)

section Commands

variable {values values' : Values} {accepted : List String} {name : Bytes} {body : Values → Result}

theorem command_eq_of_perm (hcommand : command dumpIndented bengalVersion operations name =
      some (accepted, body)) (h : values.Perm values') (hnodup : (names values).Nodup) :
    body values = body values' := by
  have hrequired := required_eq_of_perm h hnodup
  have hvalueOr := valueOr_eq_of_perm h hnodup
  have hunsigned := unsignedValue_eq_of_perm h hnodup
  unfold command at hcommand
  split at hcommand
  · cases hcommand
    simp only [generate, hrequired, hvalueOr, hunsigned]
  · split at hcommand
    · cases hcommand
      simp only [replay, hrequired, hvalueOr]
    · split at hcommand
      · cases hcommand
        simp only [compare, hrequired]
      · split at hcommand
        · cases hcommand
          simp only [benchmark, hrequired, hunsigned]
        · split at hcommand
          · cases hcommand
            simp only [capture, hrequired, hvalueOr, Capture.captureDuration, hunsigned]
          · cases hcommand

end Commands

def RefusesUnknown (values : Values) (exit : Exit) : Prop :=
  ∃ name ∈ names values, exit = thrown [] (ascii "unknown option --" ++ name)

section Orders

variable {values values' : Values} {order order' : Values → Values}

theorem execute_eq_of_perm (horder : ∀ v, (order v).Perm v) (horder' : ∀ v, (order' v).Perm v)
    (h : values.Perm values') (hnodup : (names values).Nodup) (name : Bytes) :
    execute dumpIndented bengalVersion operations order name values =
        execute dumpIndented bengalVersion operations order' name values' ∨
      RefusesUnknown values (execute dumpIndented bengalVersion operations order name values) ∧
        RefusesUnknown values
          (execute dumpIndented bengalVersion operations order' name values') := by
  unfold execute
  cases hcommand : command dumpIndented bengalVersion operations name with
  | none => exact Or.inl rfl
  | some found =>
    obtain ⟨accepted, body⟩ := found
    have hgiven : ∀ name, name ∈ names (order values) ↔ name ∈ names values :=
      fun name => ((horder values).map Prod.fst).mem_iff
    have hgiven' : ∀ name, name ∈ names (order' values') ↔ name ∈ names values :=
      fun name => (((horder' values').trans h.symm).map Prod.fst).mem_iff
    have hbody := command_eq_of_perm dumpIndented bengalVersion operations hcommand h hnodup
    rcases rejectUnknown_cases accepted (order values) with ⟨hok, hall⟩ | ⟨n, hn, hmem, hunknown⟩
    · have hok' : rejectUnknown accepted (order' values') = .ok () :=
        rejectUnknown_eq_ok_iff.2 fun name hname =>
          hall name ((hgiven name).2 ((hgiven' name).1 hname))
      left
      simp only [hok, hok', hbody]
    · rcases rejectUnknown_cases accepted (order' values') with
        ⟨-, hall⟩ | ⟨n', hn', hmem', -⟩
      · exact absurd (hall n ((hgiven' n).2 ((hgiven n).1 hmem))) hunknown
      · right
        simp only [hn, hn']
        exact ⟨⟨n, (hgiven n).1 hmem, rfl⟩, n', (hgiven' n').1 hmem', rfl⟩

theorem words_eq_nil_iff : words values = [] ↔ values = [] := by
  cases values <;> simp [words]

/-- The same options in another order, or another order of the hash map: the same calls, the same
output and the same exit code, and but for the name of an unknown option the same message. -/
theorem main_eq_of_perm (horder : ∀ v, (order v).Perm v) (horder' : ∀ v, (order' v).Perm v)
    (h : values.Perm values') (hnodup : (names values).Nodup) (name : Bytes) :
    main dumpIndented bengalVersion version operations order (name :: words values) =
        main dumpIndented bengalVersion version operations order' (name :: words values') ∨
      RefusesUnknown values
          (main dumpIndented bengalVersion version operations order (name :: words values)) ∧
        RefusesUnknown values
          (main dumpIndented bengalVersion version operations order' (name :: words values')) := by
  have hnodup' : (names values').Nodup := (h.map Prod.fst).nodup_iff.1 hnodup
  have hparse : parseArguments [] (words values) = .ok values := parseArguments_words hnodup
  have hparse' : parseArguments [] (words values') = .ok values' := parseArguments_words hnodup'
  have hempty : words values = [] ↔ words values' = [] := by
    rw [words_eq_nil_iff, words_eq_nil_iff]
    exact ⟨fun heq => (heq ▸ h).nil_eq.symm, fun heq => (heq ▸ h).eq_nil⟩
  have hexecute := execute_eq_of_perm dumpIndented bengalVersion operations horder horder' h hnodup
    name
  simp only [main, hparse, hparse', hempty]
  split
  · exact Or.inl rfl
  · split
    · exact Or.inl rfl
    · exact hexecute

def failing : Operations where
  generateFixture _ _ _ := .error (ascii "failed writing fixture")
  replay _ _ := .error (ascii "capture has no metadata record")
  executable := .error (ascii "canonical")
  runBenchmark _ := .error (ascii "fork failed")
  captureLive := none

def fixtureValues : Values := [(ascii "output", ascii "a.jsonl"), (ascii "events", ascii "2")]

theorem main_eq_of_perm_reversed :
    let run := @main .reference JsonLibrary.referenceIndented "1.0.0" "0.2.0" failing
    run id (ascii "generate" :: words fixtureValues) =
        run List.reverse (ascii "generate" :: words fixtureValues.reverse) ∨
      RefusesUnknown fixtureValues (run id (ascii "generate" :: words fixtureValues)) ∧
        RefusesUnknown fixtureValues
          (run List.reverse (ascii "generate" :: words fixtureValues.reverse)) :=
  @main_eq_of_perm .reference JsonLibrary.referenceIndented "1.0.0" "0.2.0" failing _ _ _ _
    (fun _ => .refl _) List.reverse_perm (List.reverse_perm fixtureValues).symm (by decide)
    (ascii "generate")

end Orders

end BengalMarket.Cli
