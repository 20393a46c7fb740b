/-
**What a receiver has heard.**

A receiver whose store fails now and then, and a judge that turns messages away, both end up where a
plain receiver with a sound store ends up that was sent only some of their messages.  Those are the
messages that were processed without an error, and by a judge, accepted; a message that was refused,
by a check, by the first-seen policy or by the store, might as well not have been sent.

* `Keri.heard`, `Keri.admitted` — what a receiver has heard along a run, and what a judge has
  admitted;
* `Keri.emulates_processMessage` — **a message that is processed on some store is processed on a
  sound one**, to the same effect;
* `Keri.faults_are_losses` — **a store that fails loses messages and does nothing else**;
* `Keri.judge_refines_direct` — **a judge is a receiver that hears less**.
-/

import Keri.Isolation
import Keri.Lib.Simulation

set_option relaxedAutoImplicit false
set_option autoImplicit false

namespace Keri

open Outcome Machine Simulation

variable (X : Externals) (disk : Disk)

/-! ### What is heard -/

/-- The receiver processes the message without an error. -/
def hears (n : Node) (data : Bytes) : Bool := okAnd (fun _ _ => true) (processMessage X disk data n)

/-- What a receiver has heard of the messages it was sent. -/
def heard : Node → List Bytes → List Bytes := kept (stepDirect X disk) (hears X disk)

/-- The judge accepts the message. -/
def admits (j : Judge) (data : Bytes) : Bool :=
  okAnd (fun result _ => match result with | .accepted _ => true | _ => false)
    (Judge.process X disk data j)

/-- What a judge has admitted of the messages it was sent. -/
def admitted : Judge → List Bytes → List Bytes := kept (stepJudge X disk) (admits X disk)

variable {X disk} {n m : Node}

/-! ### A store that fails -/

/-- A write that is committed is committed by a sound store. -/
theorem emulates_write (f : Tables → Tables) (h : Traceless n m) :
    Emulates Traceless (Node.onStore (Store.write disk f))
      (Node.onStore (Store.write .sound f)) n m := by
  intro u n' hrun
  obtain ⟨s, hwrite, rfl⟩ := zoom_run_ok.1 hrun
  obtain ⟨-, rfl⟩ := Store.write_ok.1 hwrite
  exact ⟨_, zoom_run_ok.2 ⟨_, Store.write_ok.2 ⟨rfl, rfl⟩, rfl⟩, h.kevers, congrArg f h.tables⟩

/-- A verifier that is replaced on both sides. -/
theorem emulates_replace (p : String) (k : Kever) (h : Traceless n m) :
    Emulates Traceless
      (modify fun node : Node => { node with kevers := node.kevers.put p k } :
        EStateM KeriError Node PUnit)
      (modify fun node : Node => { node with kevers := node.kevers.put p k }) n m :=
  Emulates.modify ⟨congrArg (·.put p k) h.kevers, h.tables⟩

theorem emulates_processInception (r : ProcessResult) (s : Serder) (sigs : List Siger)
    (couples : List (String × Bytes)) (raw : Bytes) (h : Traceless n m) :
    Emulates Traceless (processInception X disk r s sigs couples raw)
      (processInception X .sound r s sigs couples raw) n m := by
  unfold processInception
  refine Emulates.get ?_
  rw [h.kevers]
  dsimp only
  split
  · exact emulates_throw _ _
  · refine (Emulates.lift _ h).bind fun k n₁ m₁ h₁ => ?_
    exact (emulates_write _ h₁).bind fun _ n₂ m₂ h₂ => emulates_replace _ _ h₂

theorem emulates_processUpdate (r : ProcessResult) (s : Serder) (sigs : List Siger)
    (couples : List (String × Bytes)) (raw : Bytes) (h : Traceless n m) :
    Emulates Traceless (processUpdate X disk r s sigs couples raw)
      (processUpdate X .sound r s sigs couples raw) n m := by
  unfold processUpdate
  refine Emulates.get ?_
  rw [h.kevers]
  split
  · exact Emulates.pure _ h
  · refine (Emulates.lift _ h).bind fun t n₁ m₁ h₁ => ?_
    exact (emulates_write _ h₁).bind fun _ n₂ m₂ h₂ => emulates_replace _ _ h₂

theorem emulates_processParsed (parsed : ParsedMessage) (h : Traceless n m) :
    Emulates Traceless (processParsed X disk parsed)
      (processParsed X .sound parsed) n m := by
  unfold processParsed
  refine (Emulates.lift _ h).bind fun r n₁ m₁ h₁ => ?_
  refine (Emulates.lift _ h₁).bind fun p n₂ m₂ h₂ => ?_
  -- the four arms, each of which ends with the report
  have hreport : ∀ {x y : EStateM KeriError Node Unit}, Emulates Traceless x y n₂ m₂ →
      Emulates Traceless (x >>= fun _ => pure r) (y >>= fun _ => pure r) n₂ m₂ :=
    fun hxy => hxy.bind fun _ _ _ h₃ => Emulates.pure r h₃
  obtain ⟨couples, raw⟩ := p
  dsimp only
  split
  · exact hreport (emulates_processInception r _ _ _ _ h₂)
  · split
    · exact hreport (emulates_processUpdate r _ _ _ _ h₂)
    · split
      · refine hreport ?_
        unfold processReceipt
        split
        · exact Emulates.pure _ h₂
        · exact emulates_write _ h₂
      · exact hreport (emulates_write _ h₂)

/-- **A message that is processed on some store is processed on a sound one**, with the same result
and the same verifiers and tables. -/
theorem emulates_processMessage (data : Bytes) (h : Traceless n m) :
    Emulates Traceless (processMessage X disk data)
      (processMessage X .sound data) n m :=
  (Emulates.lift _ h).bind fun _ _ _ h₁ => emulates_processParsed _ h₁

theorem Traceless.symm (h : Traceless n m) : Traceless m n := ⟨h.kevers.symm, h.tables.symm⟩

theorem Traceless.trans {n' : Node} (h : Traceless n m) (h' : Traceless m n') : Traceless n n' :=
  ⟨h'.kevers.trans h.kevers, h'.tables.trans h.tables⟩

/-- A message that is refused leaves no trace. -/
theorem processMessage_traceless {data : Bytes} {e : KeriError} {n' : Node}
    (h : processMessage X disk data n = .error e n') : Traceless n n' := by
  unfold processMessage at h
  rcases bind_run_error.1 h with hparse | ⟨⟨parsed, size⟩, n₁, hparse, hrun⟩
  · obtain ⟨-, rfl⟩ := lift_run_error.1 hparse
    exact Traceless.refl _
  · obtain ⟨-, rfl⟩ := lift_run_ok.1 hparse
    exact processParsed_traceless hrun

variable (X disk) in
/-- A receiver whose store fails, and one whose store does not. -/
theorem lossy_stepDirect :
    Lossy (stepDirect X disk) (stepDirect X .sound) (hears X disk) Traceless where
  kept := by
    intro n m data h hhears
    obtain ⟨r, n', hrun, -⟩ := exists_run_of_okAnd hhears
    obtain ⟨m', hrun', h'⟩ := emulates_processMessage data h r n' hrun
    unfold stepDirect
    rw [hrun, hrun']
    exact h'
  lost := by
    intro n m data h hdeaf
    obtain ⟨e, n', hrun⟩ := exists_error_of_okAnd hdeaf
    unfold stepDirect
    rw [hrun]
    exact (processMessage_traceless hrun).symm.trans h

/-- What is heard on some store, a sound one processes. -/
theorem processed_of_hears {data : Bytes} (h : Traceless n m)
    (hhears : hears X disk n data = true) :
    ∃ r m', processMessage X .sound data m = .ok r m' := by
  obtain ⟨r, n', hrun, -⟩ := exists_run_of_okAnd hhears
  obtain ⟨m', hrun', -⟩ := emulates_processMessage data h r n' hrun
  exact ⟨r, m', hrun'⟩

/-- **A store that fails loses messages and does nothing else.**  Whichever of its calls fail, the
receiver ends with the verifiers and the tables that a receiver with a sound store has after the
messages that were heard; those were delivered in that order, and none of them is refused. -/
theorem faults_are_losses (X : Externals) (disk : Disk) (n : Node) (msgs : List Bytes) :
    (heard X disk n msgs).Sublist msgs ∧
      Traceless (run (stepDirect X disk) n msgs)
        (run (stepDirect X .sound) n (heard X disk n msgs)) ∧
      Along (stepDirect X .sound) (fun m data => ∃ r m', processMessage X .sound data m = .ok r m')
        n (heard X disk n msgs) :=
  ⟨kept_sublist n msgs, (lossy_stepDirect X disk).run (Traceless.refl n) msgs,
    (lossy_stepDirect X disk).along processed_of_hears (Traceless.refl n) msgs⟩

/-! ### A judge -/

/-- A call of the store that reads. -/
theorem traceless_read {α : Type} (f : Tables → α) (n : Node) :
    Traceless n (stateAfter (Node.onStore (Store.read disk f) n)) := by
  cases hdisk : disk n.store.calls with
  | none =>
      have hread : Node.onStore (Store.read disk f) n = .ok (f n.store.tables)
          { n with store := { n.store with calls := n.store.calls + 1 } } :=
        zoom_run_ok.2 ⟨_, Store.read_ok.2 ⟨hdisk, rfl, rfl⟩, rfl⟩
      rw [hread]
      exact ⟨rfl, rfl⟩
  | some e =>
      have hread : Node.onStore (Store.read disk f) n = .error (.db e)
          { n with store := { n.store with calls := n.store.calls + 1 } } :=
        zoom_run_error.2 ⟨e, _, Store.read_error.2 ⟨hdisk, rfl⟩, rfl, rfl⟩
      rw [hread]
      exact ⟨rfl, rfl⟩

namespace Judge

variable {j : Judge}

/-- The relation that such a verification stays in. -/
abbrev Alike (j j' : Judge) : Prop := Traceless j.node j'.node

/-- A conflicting event leaves no trace in the store. -/
theorem verifyForDuplicity_traceless (parsed : ParsedMessage) (existingSaid : String) :
    Keeps Alike (verifyForDuplicity X disk parsed existingSaid) := by
  have htrans : ∀ j j' j'' : Judge, Alike j j' → Alike j' j'' → Alike j j'' :=
    fun _ _ _ => Traceless.trans
  have hrefl : ∀ j : Judge, Alike j j := fun j => Traceless.refl j.node
  unfold verifyForDuplicity
  refine Keeps.bind htrans (Keeps.lift hrefl _) fun r => ?_
  refine Keeps.bind htrans hrefl fun judge => ?_
  refine Keeps.bind htrans (Keeps.lift hrefl _) fun _ => ?_
  refine Keeps.bind htrans (fun j => ?_) fun stored => ?_
  · rw [stateAfter_onNode]
    exact traceless_read _ j.node
  refine Keeps.bind htrans (Keeps.lift hrefl _) fun event => ?_
  refine Keeps.bind htrans (fun j => ?_) fun _ => hrefl
  rw [modify_run, stateAfter_ok]
  unfold Alike
  rw [recordDuplicity_node]
  exact hrefl j

/-- A message that the receiver is asked to process and that is not accepted. -/
theorem passOn_traceless {parsed : ParsedMessage}
    (h : ∀ r j', (onNode (processParsed X disk parsed) >>= fun result =>
      pure (JudgeResult.accepted result)) j ≠ .ok (.accepted r) j') :
    Traceless j.node (stateAfter ((onNode (processParsed X disk parsed) >>= fun result =>
      pure (JudgeResult.accepted result)) j)).node := by
  rw [stateAfter_bind_pure, stateAfter_onNode]
  cases hrun : processParsed X disk parsed j.node with
  | ok r n' =>
      have hnode : onNode (processParsed X disk parsed) j = .ok r { j with node := n' } :=
        zoom_run_ok.2 ⟨n', hrun, rfl⟩
      rw [bind_run_of_ok hnode] at h
      exact absurd rfl (h r _)
  | error e n' => exact processParsed_traceless hrun

/-- A message that is not accepted leaves no trace in the store. -/
theorem process_traceless {data : Bytes}
    (h : ∀ r j', process X disk data j ≠ .ok (.accepted r) j') :
    Traceless j.node (stateAfter (process X disk data j)).node := by
  by_cases hread : ∃ parsed size r, parseNext X data = .ok (parsed, size) ∧
      parsed.serder.header = .ok r
  · obtain ⟨parsed, size, r, hparse, hheader⟩ := hread
    rw [process_run hparse hheader] at h ⊢
    by_cases hrct : r.ilk = "rct"
    · rw [processJudged_rct hrct] at h ⊢
      exact passOn_traceless h
    by_cases hflag : r.pfx ∈ j.flagged
    · obtain ⟨e, he⟩ := processJudged_flagged X disk parsed hrct hflag
      rw [he]
      exact Traceless.refl _
    cases hdisk : disk j.node.store.calls with
    | some e =>
        rw [processJudged_fault hrct hflag hdisk]
        exact ⟨rfl, rfl⟩
    | none =>
        rw [processJudged_seen hrct hflag hdisk] at h ⊢
        cases hseen : j.node.store.tables.fels.get (snKey r.pfx r.sn) with
        | none =>
            rw [hseen] at h
            have hcalled : Traceless j.node j.called.node := ⟨rfl, rfl⟩
            exact hcalled.trans (passOn_traceless h)
        | some existingSaid =>
            simp only
            split
            · exact ⟨rfl, rfl⟩
            · have hcalled : Traceless j.node j.called.node := ⟨rfl, rfl⟩
              exact hcalled.trans (verifyForDuplicity_traceless parsed existingSaid j.called)
  · obtain ⟨e, he⟩ := process_unread X disk j fun parsed size r hparse hheader =>
      hread ⟨parsed, size, r, hparse, hheader⟩
    rw [he]
    exact Traceless.refl _

end Judge

theorem admits_iff {j : Judge} {data : Bytes} :
    admits X disk j data = true ↔ ∃ r j', Judge.process X disk data j = .ok (.accepted r) j' := by
  unfold admits
  constructor
  · intro h
    obtain ⟨result, j', hrun, hresult⟩ := exists_run_of_okAnd h
    cases result with
    | accepted r => exact ⟨r, j', hrun⟩
    | duplicateAccepted => cases hresult
    | duplicityDetected e => cases hresult
  · rintro ⟨r, j', hrun⟩
    rw [hrun]
    rfl

/-- The message is processed, and is a receipt or of a place where nothing has been seen. -/
def Unseen (X : Externals) (m : Node) (data : Bytes) : Prop :=
  ∃ parsed size r m', parseNext X data = .ok (parsed, size) ∧
    processMessage X .sound data m = .ok r m' ∧ parsed.serder.header = .ok r ∧
    (r.ilk = "rct" ∨ m.store.tables.fels.get (snKey r.pfx r.sn) = none)

/-- What a judge admits, a receiver with a sound store processes. -/
theorem admits_step {j : Judge} {data : Bytes} (h : Traceless j.node m)
    (hadmits : admits X disk j data = true) :
    Traceless (stepJudge X disk j data).node (stepDirect X .sound m data) ∧ Unseen X m data := by
  obtain ⟨r, j', hrun⟩ := admits_iff.1 hadmits
  obtain ⟨parsed, size, r', hparse, hheader, hjudged⟩ := Judge.process_eq_ok.1 hrun
  obtain ⟨start, hstart, hprocessed, hunseen⟩ := Judge.processJudged_accepted hheader hjudged
  have hm : Traceless start.node m := by
    rcases hstart with rfl | rfl
    · exact h
    · exact ⟨h.kevers, h.tables⟩
  obtain ⟨m', hsound, hafter⟩ := emulates_processParsed parsed hm r j'.node hprocessed
  obtain ⟨hsame, -⟩ := processParsed_ok hsound
  obtain rfl := Except.ok.inj (hheader.symm.trans hsame)
  have hmessage : processMessage X .sound data m = .ok r' m' := by
    rw [processMessage_of_parse hparse, hsound]
  refine ⟨?_, parsed, size, r', m', hparse, hmessage, hheader, ?_⟩
  · unfold stepDirect stepJudge
    rw [hmessage, hrun]
    exact hafter
  · rw [h.tables]
    exact hunseen

variable (X disk) in
/-- A judge, and a receiver with a sound store. -/
theorem lossy_stepJudge :
    Lossy (stepJudge X disk) (stepDirect X .sound) (admits X disk)
      fun j m => Traceless j.node m where
  kept := by
    intro j m data h hadmits
    exact (admits_step h hadmits).1
  lost := by
    intro j m data h hrefused
    refine (Judge.process_traceless fun r j' hrun => ?_).symm.trans h
    rw [admits_iff.2 ⟨r, j', hrun⟩] at hrefused
    cases hrefused

/-- **A judge is a receiver that hears less.**  Whatever it was sent and whichever calls of its
store fail, a judge has the verifiers and the tables of a receiver with a sound store that was sent
only the messages that the judge has accepted; each of those is processed without an error, and is a
receipt or of a place where nothing had been seen. -/
theorem judge_refines_direct (X : Externals) (disk : Disk) (j : Judge) (msgs : List Bytes) :
    (admitted X disk j msgs).Sublist msgs ∧
      Traceless (run (stepJudge X disk) j msgs).node
        (run (stepDirect X .sound) j.node (admitted X disk j msgs)) ∧
      Along (stepDirect X .sound) (Unseen X) j.node (admitted X disk j msgs) :=
  ⟨kept_sublist j msgs, (lossy_stepJudge X disk).run (Traceless.refl j.node) msgs,
    (lossy_stepJudge X disk).along (fun h hadmits => (admits_step h hadmits).2)
      (Traceless.refl j.node) msgs⟩

end Keri
