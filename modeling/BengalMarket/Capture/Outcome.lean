import BengalMarket.Capture.Interleaving

namespace BengalMarket.AtomicOutput

open Capture (temporary)
open FileSystem (Disk File)

def Call.data : Call → Bytes
  | .write data => data
  | .writeLine line => line ++ [Lines.newline]
  | .commit | .destroy => []

def Action.data : Action → Bytes
  | .call c => c.data
  | .answer _ => []

def Stage.pending : Stage → Bytes
  | .writing _ _ argument => argument
  | _ => []

def Stage.committing : Stage → Bool
  | .syncing | .closing | .linking | .unlinking | .openingDirectory | .syncingDirectory
  | .droppingDirectory _ | .closingDirectory => true
  | .checking | .creating | .idle | .writing .. | .destroying | .gone => false

section Moves

variable {destination what : String} {d : Disk String} {inst after : Instance} {m : Move}

def Instance.total (inst : Instance) : Bytes := inst.written ++ inst.stage.pending

theorem total_next (inst : Instance) (argument : Bytes) (pending : List Bytes) :
    (inst.next argument pending).total = inst.written ++ argument := by
  rcases next_cases inst argument pending with ⟨-, heq⟩ | ⟨data, later, -, heq⟩
  · simp [heq, Instance.total, Stage.pending]
  · simp [heq, Instance.total, Stage.pending]

theorem torn_next (inst : Instance) (argument : Bytes) (pending : List Bytes) :
    (inst.next argument pending).torn = inst.torn := by
  rcases next_cases inst argument pending with ⟨-, heq⟩ | ⟨data, later, -, heq⟩ <;> rw [heq]

theorem total_call (hidle : inst.stage = .idle) (c : Call) :
    (inst.call c).torn = inst.torn ∧ (inst.call c).total = inst.total ++ c.data := by
  have htotal : inst.total = inst.written := by simp [Instance.total, hidle, Stage.pending]
  cases c with
  | write data =>
    rw [Instance.call, total_next, torn_next, htotal]
    exact ⟨rfl, rfl⟩
  | writeLine line =>
    rw [Instance.call, total_next, torn_next, htotal]
    exact ⟨rfl, rfl⟩
  | commit =>
    rw [Instance.call, htotal]
    split <;> simp [Instance.throw, Instance.total, Stage.pending, Call.data]
  | destroy =>
    rw [Instance.call, htotal]
    split <;> simp [Instance.total, Stage.pending, Call.data]

theorem total_succeed (h : succeed destination d inst = some m) :
    m.after.torn = inst.torn ∧ m.after.total = inst.total := by
  cases hstage : inst.stage with
  | idle | gone | writing => simp [succeed, hstage] at h
  | checking =>
    simp only [succeed, hstage] at h
    split at h <;> cases h <;> simp [Instance.leave, Instance.total, Stage.pending, hstage]
  | creating | syncing | linking | unlinking =>
    simp only [succeed, hstage, Option.map_eq_some_iff] at h
    obtain ⟨_, -, rfl⟩ := h
    simp [Instance.total, Stage.pending, hstage]
  | closing | openingDirectory | syncingDirectory | droppingDirectory | closingDirectory
  | destroying =>
    simp only [succeed, hstage, Option.some.injEq] at h
    subst h
    simp [Instance.throw, Instance.total, Stage.pending, hstage]

theorem total_fail (h : fail destination what inst = some after) :
    after.torn = inst.torn ∧ after.total = inst.total := by
  cases hstage : inst.stage with
  | idle | gone | writing => simp [fail, hstage] at h
  | checking | creating | syncing | closing | linking | unlinking | openingDirectory
  | syncingDirectory | droppingDirectory | closingDirectory | destroying =>
    simp only [fail, hstage, Option.some.injEq] at h
    subst h
    simp [Instance.throw, Instance.leave, Instance.total, Stage.pending, hstage]

theorem total_answerWrite {data : Bytes} {later : List Bytes} {argument : Bytes}
    {result : Capture.WriteResult} (hstage : inst.stage = .writing data later argument)
    (h : answerWrite destination d inst data later argument result = some m)
    (htorn : m.after.torn = false) : inst.torn = false ∧ m.after.total = inst.total := by
  have htotal : inst.total = inst.written ++ argument := by
    simp [Instance.total, hstage, Stage.pending]
  unfold answerWrite at h
  split at h
  · cases h
    exact ⟨htorn, rfl⟩
  · split at h
    · cases h
      cases htorn
    · simp only [Option.map_eq_some_iff] at h
      obtain ⟨number, -, rfl⟩ := h
      rw [torn_next] at htorn
      exact ⟨htorn, by rw [total_next, htotal]⟩

theorem total_move {a : Action} (h : move destination d inst a = some m)
    (htorn : m.after.torn = false) :
    inst.torn = false ∧ m.after.total = inst.total ++ a.data := by
  unfold move at h
  split at h
  · split at h
    · rename_i hidle
      cases h
      obtain ⟨hsame, htotal⟩ := total_call hidle _
      exact ⟨hsame ▸ htorn, htotal⟩
    · cases h
  · obtain ⟨hsame, htotal⟩ := total_succeed h
    exact ⟨hsame ▸ htorn, by rw [htotal, Action.data, List.append_nil]⟩
  · simp only [Option.map_eq_some_iff] at h
    obtain ⟨after, hfail, rfl⟩ := h
    obtain ⟨hsame, htotal⟩ := total_fail hfail
    exact ⟨hsame ▸ htorn, by rw [htotal, Action.data, List.append_nil]⟩
  · split at h
    · rename_i hstage
      rw [Action.data, List.append_nil]
      exact total_answerWrite hstage h htorn
    · cases h

theorem committing_next (inst : Instance) (argument : Bytes) (pending : List Bytes) :
    (inst.next argument pending).stage.committing = false := by
  rcases next_cases inst argument pending with ⟨-, heq⟩ | ⟨data, later, -, heq⟩ <;> rw [heq] <;> rfl

theorem committing_call {c : Call} (hcall : c ≠ .commit) :
    (inst.call c).stage.committing = false := by
  cases c with
  | write data => exact committing_next ..
  | writeLine line => exact committing_next ..
  | commit => exact absurd rfl hcall
  | destroy =>
    rw [Instance.call]
    split <;> rfl

theorem committing_succeed (h : succeed destination d inst = some m)
    (hcommitting : inst.stage.committing = false) : m.after.stage.committing = false := by
  cases hstage : inst.stage with
  | idle | gone | writing => simp [succeed, hstage] at h
  | checking =>
    simp only [succeed, hstage] at h
    split at h <;> cases h <;> rfl
  | creating =>
    simp only [succeed, hstage, Option.map_eq_some_iff] at h
    obtain ⟨_, -, rfl⟩ := h
    rfl
  | destroying =>
    simp only [succeed, hstage, Option.some.injEq] at h
    subst h
    rfl
  | syncing | closing | linking | unlinking | openingDirectory | syncingDirectory
  | droppingDirectory | closingDirectory =>
    rw [hstage] at hcommitting
    cases hcommitting

theorem committing_fail (h : fail destination what inst = some after)
    (hcommitting : inst.stage.committing = false) : after.stage.committing = false := by
  cases hstage : inst.stage with
  | idle | gone | writing => simp [fail, hstage] at h
  | checking | creating | destroying =>
    simp only [fail, hstage, Option.some.injEq] at h
    subst h
    rfl
  | syncing | closing | linking | unlinking | openingDirectory | syncingDirectory
  | droppingDirectory | closingDirectory =>
    rw [hstage] at hcommitting
    cases hcommitting

theorem committing_move {a : Action} (h : move destination d inst a = some m)
    (hcall : a ≠ .call .commit) (hcommitting : inst.stage.committing = false) :
    m.after.stage.committing = false := by
  unfold move at h
  split at h
  · split at h
    · cases h
      exact committing_call fun heq => hcall (congrArg Action.call heq)
    · cases h
  · exact committing_succeed h hcommitting
  · simp only [Option.map_eq_some_iff] at h
    obtain ⟨after, hfail, rfl⟩ := h
    exact committing_fail hfail hcommitting
  · split at h
    · unfold answerWrite at h
      split at h
      · cases h
        exact hcommitting
      · split at h
        · cases h
          rfl
        · simp only [Option.map_eq_some_iff] at h
          obtain ⟨number, -, rfl⟩ := h
          exact committing_next ..
    · cases h

theorem Moved.linked_of_mem {f : Nat} (hm : Moved destination d inst m)
    (hmem : Effect.linked f ∈ m.effects) :
    inst.stage = .linking ∧ d.link (temporary destination) destination = some (f, m.disk) := by
  cases hm with
  | linked hstage hlink =>
    simp only [List.mem_singleton, Effect.linked.injEq] at hmem
    exact ⟨hstage, hmem ▸ hlink⟩
  | _ => simp at hmem

end Moves

section Runs

variable {ι : Type} {destination : String} {disk start : Disk String} {s t : System ι} {i : ι}
  {labels : List (ι × Action)}

section Parts

variable (hinv : Invariant destination disk s) (hlogged : Logged s)

include hinv hlogged

theorem stored_of_linked {f : Nat} (hwrites : (s.instances i).torn = false)
    (hlinked : (i, .linked f) ∈ s.log) : s.disk.entry destination = some f ∧
      s.disk.files[f]? = some ⟨(s.instances i).written, true⟩ := by
  obtain ⟨hpublished, hfile⟩ := (hlogged.linked i f).1 hlinked
  obtain ⟨g, hg, hentry, -⟩ := (hinv.sound i).published hpublished
  obtain rfl := Option.some.inj (hfile.symm.trans hg)
  obtain ⟨⟨data, synced⟩, hget, hcontent, hsynced⟩ := ((hinv.sound i).stored f hfile).file
  have hfd : (s.instances i).fd = none := by
    cases hfd : (s.instances i).fd with
    | none => rfl
    | some n => rw [((hinv.sound i).fd n hfd).2] at hpublished; cases hpublished
  have hdata : data = (s.instances i).written := (hcontent hwrites).eq_written hfd
  have htrue : synced = true := hsynced (.inr (.inr hpublished))
  exact ⟨hentry, by rw [hget, hdata, htrue]⟩

theorem linked_of_possible {f : Nat} (hpossible : some f ∈ s.disk.possible destination)
    (hcreated : (i, .created f) ∈ s.log) : (i, .linked f) ∈ s.log := by
  have hfile := (hlogged.created i f).1 hcreated
  rw [hlogged.linked]
  rcases hinv.known _ hpossible with hstart | ⟨j, g, hpublished, hj, heq⟩
  · exact absurd (disk.exists_file hstart) (Nat.not_lt.2 ((hinv.sound i).fresh f hfile).1)
  · cases heq
    obtain rfl := hinv.distinct hfile hj
    exact ⟨hpublished, hfile⟩

theorem durable_of_committed (hcommitted : (s.instances i).committed = true) :
    ∃ f, (i, .linked f) ∈ s.log ∧
      (∀ n, s.disk.entry (temporary destination) = some n →
        ∃ j ≠ i, (j, .created n) ∈ s.log) ∧
      ∀ after, Disk.Crash s.disk after →
        after.entry destination = some f ∧ after.entry (temporary destination) ≠ some f := by
  have hsound := hinv.sound i
  obtain ⟨hremoved, hdurable⟩ := hsound.finished (.inr hcommitted)
  obtain ⟨f, hfile, -⟩ := hsound.published (hsound.removed hremoved)
  refine ⟨f, (hlogged.linked i f).2 ⟨hsound.removed hremoved, hfile⟩, fun n hn => ?_,
    fun after hcrash => ⟨?_, fun hgone => ?_⟩⟩
  · rcases hinv.held n hn with hstart | ⟨j, hj, hheld⟩
    · rw [(hsound.fresh f hfile).2] at hstart
      cases hstart
    · refine ⟨j, ?_, (hlogged.created j n).2 hj⟩
      rintro rfl
      rw [hremoved] at hheld
      cases hheld
  · exact (hdurable f hfile).lasting _ (hcrash.entry destination)
  · exact (hdurable f hfile).gone (hgone ▸ hcrash.entry (temporary destination))

end Parts

variable [DecidableEq ι]

def requested (i : ι) (labels : List (ι × Action)) : Bytes :=
  labels.flatMap fun (j, a) => if j = i then a.data else []

theorem move_of_step {j : ι} {a : Action} (h : step destination s (j, a) = some t) :
    ∃ m, move destination s.disk (s.instances j) a = some m ∧
      t.instances = Function.update s.instances j m.after := by
  rw [step, Option.map_eq_some_iff] at h
  obtain ⟨m, hmove, rfl⟩ := h
  exact ⟨m, hmove, rfl⟩

theorem total_step {j : ι} {a : Action} (h : step destination s (j, a) = some t)
    (htorn : (t.instances i).torn = false) : (s.instances i).torn = false ∧
      (t.instances i).total = (s.instances i).total ++ if j = i then a.data else [] := by
  obtain ⟨m, hmove, hinstances⟩ := move_of_step h
  by_cases hne : j = i
  · subst hne
    rw [hinstances, Function.update_self] at htorn ⊢
    rw [if_pos rfl]
    exact total_move hmove htorn
  · rw [hinstances, Function.update_of_ne (Ne.symm hne)] at htorn ⊢
    rw [if_neg hne, List.append_nil]
    exact ⟨htorn, rfl⟩

theorem total_run (h : Transition.run (step destination) s labels = some t)
    (htorn : (t.instances i).torn = false) : (s.instances i).torn = false ∧
      (t.instances i).total = (s.instances i).total ++ requested i labels := by
  induction labels generalizing s with
  | nil =>
    cases h
    exact ⟨htorn, (List.append_nil _).symm⟩
  | cons label labels ih =>
    obtain ⟨u, hstep, hrest⟩ := Transition.run_cons_eq_some h
    obtain ⟨hbefore, htotal⟩ := ih hrest
    obtain ⟨hfirst, hdata⟩ := total_step hstep hbefore
    refine ⟨hfirst, ?_⟩
    rw [htotal, hdata, List.append_assoc]
    rfl

theorem log_run (h : Transition.run (step destination) s labels = some t) : s.log <+: t.log := by
  induction labels generalizing s with
  | nil =>
    cases h
    exact List.prefix_rfl
  | cons label labels ih =>
    obtain ⟨u, hstep, hrest⟩ := Transition.run_cons_eq_some h
    obtain ⟨m, hstepped⟩ := stepped_of_step hstep
    exact (hstepped.log ▸ List.prefix_append _ _).trans (ih hrest)

theorem total_opened (destination : String) : (Instance.opened destination).total = [] := by
  rcases opened_cases destination with heq | ⟨what, heq⟩ <;> rw [heq] <;> rfl

theorem committing_opened (destination : String) :
    (Instance.opened destination).stage.committing = false := by
  rcases opened_cases destination with heq | ⟨what, heq⟩ <;> rw [heq] <;> rfl

theorem uncommitted_step {j : ι} {a : Action} (hstep : step destination s (j, a) = some t)
    (hcall : (j, a) ≠ (i, .call .commit)) (hcommitting : (s.instances i).stage.committing = false)
    (hlinked : ∀ f, (i, .linked f) ∉ s.log) :
    (t.instances i).stage.committing = false ∧ ∀ f, (i, .linked f) ∉ t.log := by
  obtain ⟨m, hstepped⟩ := stepped_of_step hstep
  refine ⟨?_, fun f hmem => ?_⟩
  · obtain ⟨m, hmove, hinstances⟩ := move_of_step hstep
    by_cases hne : j = i
    · subst hne
      rw [hinstances, Function.update_self]
      exact committing_move hmove (fun heq => hcall (heq ▸ rfl)) hcommitting
    · rw [hinstances, Function.update_of_ne (Ne.symm hne)]
      exact hcommitting
  · rcases hstepped.mem_log.1 hmem with hbefore | ⟨rfl, heffect⟩
    · exact hlinked f hbefore
    · rw [(hstepped.moved.linked_of_mem heffect).1] at hcommitting
      cases hcommitting

theorem uncommitted_run (h : Transition.run (step destination) s labels = some t)
    (hcall : ∀ label ∈ labels, label ≠ (i, .call .commit))
    (hcommitting : (s.instances i).stage.committing = false)
    (hlinked : ∀ f, (i, .linked f) ∉ s.log) (f : Nat) : (i, .linked f) ∉ t.log := by
  induction labels generalizing s with
  | nil =>
    cases h
    exact hlinked f
  | cons label labels ih =>
    obtain ⟨u, hstep, hrest⟩ := Transition.run_cons_eq_some h
    rw [List.forall_mem_cons] at hcall
    obtain ⟨hstage, hlog⟩ := uncommitted_step hstep hcall.1 hcommitting hlinked
    exact ih hrest hcall.2 hstage hlog

/-- What a run leaves of an instance: its file gets the name of the destination with everything
that was written to it, synced before, or not at all. -/
structure Outcome (destination : String) (disk : Disk String) (labels : List (ι × Action))
    (s : System ι) (i : ι) : Prop where
  requested : requested i labels = (s.instances i).written ++ (s.instances i).stage.pending
  published : ∀ f, (i, .linked f) ∈ s.log → s.disk.entry destination = some f ∧
    s.disk.files[f]? = some ⟨(s.instances i).written, true⟩
  synced : ∀ before label rest r t, labels = before ++ label :: rest →
    Transition.run (step destination) (System.start destination disk) before = some r →
    step destination r label = some t →
    ∀ f, (i, .linked f) ∈ t.log → (i, .linked f) ∉ r.log → r.disk.entry destination = none ∧
      r.disk.files[f]? = some ⟨(s.instances i).written, true⟩
  crashed : ∀ after, Disk.Crash s.disk after → ∀ f, after.entry destination = some f →
    (i, .created f) ∈ s.log →
    (i, .linked f) ∈ s.log ∧ after.files[f]? = some ⟨(s.instances i).written, true⟩
  committed : (s.instances i).committed = true → ∃ f, (i, .linked f) ∈ s.log ∧
    (∀ n, s.disk.entry (temporary destination) = some n → ∃ j ≠ i, (j, .created n) ∈ s.log) ∧
    ∀ after, Disk.Crash s.disk after →
      after.entry destination = some f ∧ after.entry (temporary destination) ≠ some f
  uncommitted : (∀ label ∈ labels, label ≠ (i, .call .commit)) → ∀ f, (i, .linked f) ∉ s.log

/-- The step that publishes: the name was free and the file is as it stays. -/
theorem free_of_linking {label : ι × Action} {rest : List (ι × Action)} {f : Nat}
    (hs : Invariant destination start s ∧ Logged s) (hstep : step destination s label = some t)
    (hafter : (i, .linked f) ∈ t.log) (hbefore : (i, .linked f) ∉ s.log) {u : System ι}
    (hrest : Transition.run (step destination) t rest = some u) :
    s.disk.entry destination = none ∧ u.disk.files[f]? = s.disk.files[f]? := by
  obtain ⟨m, hstepped⟩ := stepped_of_step hstep
  rcases hstepped.mem_log.1 hafter with hmem | ⟨-, heffect⟩
  · exact absurd hmem hbefore
  · obtain ⟨-, hlink⟩ := hstepped.moved.linked_of_mem heffect
    obtain ⟨-, hfree, hfiles, hchanged⟩ := Disk.link_spec hlink
    have hentry : t.disk.entry destination = some f := by
      rw [hstepped.disk]
      exact hchanged.entry_self
    obtain ⟨-, hsame⟩ := run_content (keep hs hstep) hrest hentry
    rw [hsame, hstepped.disk, hfiles]
    exact ⟨hfree, rfl⟩

/-- All-or-nothing publication, for an instance whose writes did not throw. -/
theorem all_or_nothing
    (hrun : Transition.run (step destination) (System.start destination disk) labels = some s)
    (hwrites : (s.instances i).torn = false) : Outcome destination disk labels s i := by
  obtain ⟨hinv, hlogged⟩ := holds_of_run hrun
  refine ⟨?_, fun f => stored_of_linked hinv hlogged hwrites, ?_, ?_,
    durable_of_committed hinv hlogged, fun hcall => ?_⟩
  · obtain ⟨-, htotal⟩ := total_run hrun hwrites
    rw [System.start, total_opened] at htotal
    exact htotal.symm
  · rintro before label rest r t rfl hr hstep f hafter hbefore
    have hlast : Transition.run (step destination) t rest = some s := by
      rw [Transition.run_append, hr] at hrun
      simpa [hstep] using hrun
    have hreached := holds_of_run hr
    obtain ⟨hfree, hsame⟩ := free_of_linking hreached hstep hafter hbefore hlast
    have hlinked := (log_run hlast).subset hafter
    exact ⟨hfree, hsame.symm.trans (stored_of_linked hinv hlogged hwrites hlinked).2⟩
  · intro after hcrash f hentry hcreated
    have hpossible : some f ∈ s.disk.possible destination := hentry ▸ hcrash.entry destination
    have hlinked := linked_of_possible hinv hlogged hpossible hcreated
    exact ⟨hlinked, hcrash.kept f _ (stored_of_linked hinv hlogged hwrites hlinked).2 rfl⟩
  · exact uncommitted_run hrun hcall (committing_opened destination) fun f => List.not_mem_nil

def shortWrites : List (Unit × Action) :=
  [((), .answer .ok), ((), .answer .ok), ((), .call (.write [1, 2, 3])),
    ((), .answer (.write ⟨-1, true, "Interrupted system call"⟩)),
    ((), .answer (.write ⟨1, false, ""⟩)), ((), .answer (.write ⟨2, false, ""⟩))] ++
  commitLabels ()

theorem all_or_nothing_short :
    ∃ s, Transition.run (step "log") (System.start "log" .empty) shortWrites = some s ∧
      s.disk.content "log" = some [1, 2, 3] ∧
      ∀ after, Disk.Crash s.disk after → after.content "log" = some [1, 2, 3] := by
  obtain ⟨s, hs, hwrites, hcommitted, hwritten⟩ :
      ∃ s, Transition.run (step "log") (System.start "log" .empty) shortWrites = some s ∧
        (s.instances ()).torn = false ∧ (s.instances ()).committed = true ∧
        (s.instances ()).written = [1, 2, 3] := ⟨_, rfl, rfl, rfl, rfl⟩
  have houtcome := all_or_nothing hs hwrites
  obtain ⟨f, hlinked, -, hdurable⟩ := houtcome.committed hcommitted
  obtain ⟨hentry, hfile⟩ := houtcome.published f hlinked
  rw [hwritten] at hfile
  refine ⟨s, hs, by simp [Disk.content, hentry, hfile], fun after hcrash => ?_⟩
  have hafter := (hdurable after hcrash).1
  simp [Disk.content, hafter, hcrash.kept f _ hfile rfl]

end Runs

end BengalMarket.AtomicOutput
