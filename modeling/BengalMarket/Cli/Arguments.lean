import BengalMarket.Reader.Decimal

namespace BengalMarket.Cli

/-- The hash map of the options, as a list of its entries. -/
abbrev Values := List (Bytes × Bytes)

def dashes : Bytes := ascii "--"

def pairsExpected : Bytes := ascii "options must be --name value pairs"

def parseArguments (values : Values) : List Bytes → Except Bytes Values
  | [] => .ok values
  | [_] => .error pairsExpected
  | flag :: value :: rest =>
    if !dashes.isPrefixOf flag then .error pairsExpected
    else if (values.lookup (flag.drop 2)).isSome then
      .error (ascii "duplicate option --" ++ flag.drop 2)
    else parseArguments (values ++ [(flag.drop 2, value)]) rest

def required (values : Values) (name : String) : Except Bytes Bytes :=
  match values.lookup (ascii name) with
  | none => .error (ascii ("missing --" ++ name))
  | some value => if value.isEmpty then .error (ascii ("missing --" ++ name)) else .ok value

def valueOr (values : Values) (name : String) (fallback : Bytes) : Bytes :=
  (values.lookup (ascii name)).getD fallback

def unsignedValue (values : Values) (name : String) (fallback : UInt64) : Except Bytes UInt64 :=
  match fromChars (valueOr values name (Decimal.text fallback.toNat)) with
  | some (result, []) => .ok result
  | _ => .error (ascii ("invalid --" ++ name))

def rejectUnknown (accepted : List String) : Values → Except Bytes Unit
  | [] => .ok ()
  | (name, _) :: rest =>
    if accepted.any fun candidate => name == ascii candidate then rejectUnknown accepted rest
    else .error (ascii "unknown option --" ++ name)

def words (values : Values) : List Bytes :=
  values.flatMap fun entry => [dashes ++ entry.1, entry.2]

def names (values : Values) : List Bytes := values.map Prod.fst

section Parsing

variable {values parsed : Values} {arguments : List Bytes}

theorem dashes_drop {flag : Bytes} (h : dashes.isPrefixOf flag = true) :
    flag = dashes ++ flag.drop 2 := by
  obtain ⟨name, rfl⟩ := List.isPrefixOf_iff_prefix.1 h
  rfl

theorem isPrefixOf_dashes (name : Bytes) : dashes.isPrefixOf (dashes ++ name) = true :=
  List.isPrefixOf_iff_prefix.2 (List.prefix_append _ _)

theorem lookup_isSome_iff {name : Bytes} :
    (values.lookup name).isSome ↔ name ∈ names values := by
  rw [← not_iff_not, Bool.not_eq_true, Option.isSome_eq_false_iff, Option.isNone_iff_eq_none,
    List.lookup_eq_none_iff]
  simp only [names, List.mem_map, not_exists, not_and, bne_iff_ne, ne_eq]
  exact forall₂_congr fun entry _ => not_congr eq_comm

theorem parseArguments_words (h : (names (values ++ parsed)).Nodup) :
    parseArguments values (words parsed) = .ok (values ++ parsed) := by
  induction parsed generalizing values with
  | nil => simp [words, parseArguments]
  | cons entry rest ih =>
    obtain ⟨name, value⟩ := entry
    have hfree : ¬ (values.lookup name).isSome := by
      rw [lookup_isSome_iff]
      intro hmem
      have hdisjoint := (List.nodup_append.1 (by simpa [names] using h)).2.2
      exact hdisjoint name (by simpa [names] using hmem) name (by simp) rfl
    have hnext := @ih (values ++ [(name, value)]) (by simpa using h)
    have hwords : words ((name, value) :: rest) = (dashes ++ name) :: value :: words rest := rfl
    rw [hwords, parseArguments, isPrefixOf_dashes]
    simp only [Bool.not_true, Bool.false_eq_true, if_false,
      show (dashes ++ name).drop 2 = name from rfl, hfree, hnext, List.append_assoc,
      List.singleton_append]

theorem parseArguments_eq_ok_iff (hvalues : (names values).Nodup) :
    parseArguments values arguments = .ok parsed ↔
      ∃ added, parsed = values ++ added ∧ arguments = words added ∧ (names parsed).Nodup := by
  constructor
  · intro h
    induction values, arguments using parseArguments.induct with
    | case1 values =>
      cases h
      exact ⟨[], by simp, rfl, hvalues⟩
    | case2 values flag =>
      cases h
    | case3 values flag value rest hprefix =>
      rw [parseArguments, if_pos hprefix] at h
      cases h
    | case4 values flag value rest hprefix hdouble =>
      rw [parseArguments, if_neg hprefix, if_pos hdouble] at h
      cases h
    | case5 values flag value rest hprefix hfresh ih =>
      rw [parseArguments, if_neg hprefix, if_neg hfresh] at h
      have hnext : (names (values ++ [(flag.drop 2, value)])).Nodup := by
        rw [lookup_isSome_iff] at hfresh
        rw [names, List.map_append, List.nodup_append]
        refine ⟨hvalues, by simp, fun a ha b hb => ?_⟩
        rw [List.mem_singleton.1 hb]
        rintro rfl
        exact hfresh ha
      obtain ⟨added, rfl, rfl, hnodup⟩ := ih hnext h
      have hflag := dashes_drop (by simpa using hprefix)
      refine ⟨(flag.drop 2, value) :: added, by simp, ?_, hnodup⟩
      exact congrArg (· :: value :: words added) hflag
  · rintro ⟨added, rfl, rfl, hnodup⟩
    exact parseArguments_words hnodup

/-- Exactly the options given once each are accepted, and they are what was given. -/
theorem parseArguments_exact (arguments : List Bytes) (parsed : Values) :
    parseArguments [] arguments = .ok parsed ↔
      arguments = words parsed ∧ (names parsed).Nodup := by
  have hnone : (names []).Nodup := List.nodup_nil
  rw [parseArguments_eq_ok_iff hnone]
  constructor
  · rintro ⟨added, rfl, hwords, hnodup⟩
    exact ⟨hwords, hnodup⟩
  · rintro ⟨hwords, hnodup⟩
    exact ⟨parsed, rfl, hwords, hnodup⟩

end Parsing

section Lookups

variable {values values' : Values}

theorem lookup_eq_of_perm (h : values.Perm values') (hnodup : (names values).Nodup)
    (name : Bytes) : values.lookup name = values'.lookup name := by
  induction h with
  | nil => rfl
  | cons entry _ ih =>
    rw [names, List.map_cons, List.nodup_cons] at hnodup
    rw [List.lookup_cons, List.lookup_cons, ih hnodup.2]
  | swap first second rest =>
    simp only [names, List.map_cons, List.nodup_cons, List.mem_cons, not_or] at hnodup
    rw [List.lookup_cons, List.lookup_cons, List.lookup_cons, List.lookup_cons]
    by_cases hfirst : name = first.1
    · have hsecond : (name == second.1) = false :=
        beq_false_of_ne fun heq => hnodup.1.1 (heq.symm.trans hfirst)
      rw [hsecond]
    · have hne : (name == first.1) = false := beq_false_of_ne hfirst
      simp only [hne]
  | trans hperm _ ih ih' =>
    exact (ih hnodup).trans (ih' ((hperm.map Prod.fst).nodup_iff.1 hnodup))

theorem required_eq_of_perm (h : values.Perm values') (hnodup : (names values).Nodup)
    (name : String) : required values name = required values' name := by
  rw [required, lookup_eq_of_perm h hnodup]
  rfl

theorem valueOr_eq_of_perm (h : values.Perm values') (hnodup : (names values).Nodup)
    (name : String) (fallback : Bytes) :
    valueOr values name fallback = valueOr values' name fallback := by
  rw [valueOr, lookup_eq_of_perm h hnodup]
  rfl

theorem unsignedValue_eq_of_perm (h : values.Perm values') (hnodup : (names values).Nodup)
    (name : String) (fallback : UInt64) :
    unsignedValue values name fallback = unsignedValue values' name fallback := by
  rw [unsignedValue, valueOr_eq_of_perm h hnodup]
  rfl

variable {accepted : List String}

theorem rejectUnknown_cases (accepted : List String) (values : Values) :
    (rejectUnknown accepted values = .ok () ∧ ∀ name ∈ names values, name ∈ accepted.map ascii) ∨
      ∃ name, rejectUnknown accepted values = .error (ascii "unknown option --" ++ name) ∧
        name ∈ names values ∧ name ∉ accepted.map ascii := by
  induction values with
  | nil => exact Or.inl ⟨rfl, nofun⟩
  | cons entry rest ih =>
    obtain ⟨name, value⟩ := entry
    have hany : (accepted.any fun candidate => name == ascii candidate) = true ↔
        name ∈ accepted.map ascii := by
      rw [List.any_eq_true, List.mem_map]
      exact exists_congr fun candidate => and_congr_right fun _ => by rw [beq_iff_eq, eq_comm]
    rw [rejectUnknown]
    split
    · rename_i hknown
      rcases ih with ⟨hok, hall⟩ | ⟨other, herror, hmem, hunknown⟩
      · exact Or.inl ⟨hok, List.forall_mem_cons.2 ⟨hany.1 hknown, hall⟩⟩
      · exact Or.inr ⟨other, herror, List.mem_cons_of_mem _ hmem, hunknown⟩
    · rename_i hunknown
      exact Or.inr ⟨name, rfl, List.mem_cons_self, mt hany.2 hunknown⟩

theorem rejectUnknown_eq_ok_iff :
    rejectUnknown accepted values = .ok () ↔ ∀ name ∈ names values, name ∈ accepted.map ascii := by
  rcases rejectUnknown_cases accepted values with ⟨hok, hall⟩ | ⟨name, herror, hmem, hunknown⟩
  · exact ⟨fun _ => hall, fun _ => hok⟩
  · rw [herror]
    exact ⟨nofun, fun hall => absurd (hall name hmem) hunknown⟩

end Lookups

end BengalMarket.Cli
