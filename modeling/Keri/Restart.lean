/-
**A judge that is restarted.**

A judge keeps its verifiers in memory only.  When a new one is built over the same store and is sent
the same messages again, every event that was accepted is taken for a replay, and no verifier is
built from it.  So an identifier that had a verifier has none after a restart and never gets one;
what recovers is an identifier that had none.

* `Keri.Recovers` — the new judge is as good as the old one for an identifier;
* `Keri.unknown_runJudge` — **an identifier whose inception has been seen gets no verifier**;
* `Keri.Untouched` — nothing of the identifier can be accepted;
* `Keri.restart_recovers` — **what recovers**;
* `Keri.restarted_unknown` — a judge that does not.
-/

import Keri.FirstSeen

set_option relaxedAutoImplicit false
set_option autoImplicit false

namespace Keri

open Outcome Machine

variable (X : Externals) (disk : Disk)

/-- The judge `j'` is as good as `j` for an identifier: it has the same key state and the same
verdict, and the next event that `j` would accept it accepts and records. -/
structure Recovers (j j' : Judge) (pfx : String) : Prop where
  state : (j'.node.kevers.get pfx).map Kever.state = (j.node.kevers.get pfx).map Kever.state
  verdict : j'.verdict pfx = j.verdict pfx
  next : ∀ data parsed size r sigs k, parseNext X data = .ok (parsed, size) → r.pfx = pfx →
    AcceptedBy X (j.node.kevers.get pfx) parsed r sigs k → disk j'.node.store.calls = none →
    disk (j'.node.store.calls + 1) = none →
    ∃ j'', Judge.process X disk data j' = .ok (.accepted r) j'' ∧ Recorded j''.node r

/-- The judge after a run, restarted and sent the messages again. -/
def restarted (store : Store) (msgs : List Bytes) : Judge :=
  runJudge X disk (runJudge X disk store msgs).node.store msgs

/-- Nothing of the identifier has been accepted, and none of the messages is an inception of it that
passes. -/
structure Untouched (store : Store) (msgs : List Bytes) (pfx : String) : Prop where
  unknown : (runJudge X disk store msgs).node.kevers.get pfx = none
  unseen : (runJudge X disk store msgs).node.store.tables.fels.get (snKey pfx 0) = none
  refused : ∀ data ∈ msgs, ∀ parsed size r sigs k, parseNext X data = .ok (parsed, size) →
    AcceptedBy X none parsed r sigs k → r.pfx ≠ pfx

variable {X disk} {store : Store} {msgs : List Bytes} {pfx : String}

/-! ### Identifiers that had a verifier -/

/-- **An identifier whose inception has been seen gets no verifier**: its inception is never
processed again, and without it no update is. -/
theorem unknown_runJudge (h : (store.tables.fels.get (snKey pfx 0)).isSome) :
    (runJudge X disk store msgs).node.kevers.get pfx = none ∧
      ((runJudge X disk store msgs).node.store.tables.fels.get (snKey pfx 0)).isSome := by
  induction msgs using List.reverseRecOn with
  | nil => exact ⟨rfl, h⟩
  | append_singleton msgs data ih =>
      obtain ⟨hnone, hseen⟩ := ih
      rw [runJudge_concat]
      obtain ⟨said, hsaid⟩ := Option.isSome_iff_exists.1 hseen
      refine ⟨?_, Option.isSome_of_eq_some (firstSeen_step data hsaid)⟩
      rcases stepJudge_cases X disk (runJudge X disk store msgs) data with
        hquiet | ⟨parsed, size, r, sigs, k, -, -, hadmits⟩
      · rw [hquiet.kevers]
        exact hnone
      · have hne : pfx ≠ r.pfx := by
          rintro rfl
          obtain ⟨-, -, -, -, -, hkind⟩ := hadmits.accepted.advance
          rcases hkind with ⟨-, -, hzero, -⟩ | ⟨k₀, hk₀, -⟩
          · have hunseen := hadmits.unseen
            rw [hzero, hsaid] at hunseen
            cases hunseen
          · rw [hnone] at hk₀
            cases hk₀
        rw [hadmits.kevers, Table.get_put_of_ne _ hne]
        exact hnone

/-- An identifier that recovers had no verifier. -/
theorem unknown_of_recovers
    (h : Recovers X disk (runJudge X disk store msgs) (restarted X disk store msgs) pfx) :
    (runJudge X disk store msgs).node.kevers.get pfx = none := by
  cases hk : (runJudge X disk store msgs).node.kevers.get pfx with
  | none => rfl
  | some k =>
      have hseen := (tracks_runJudge store msgs pfx k hk).seen 0 (Nat.zero_le _)
      have hnone : (restarted X disk store msgs).node.kevers.get pfx = none :=
        (unknown_runJudge hseen).1
      have hstate := h.state
      rw [hk, hnone] at hstate
      cases hstate

/-! ### Identifiers that had none -/

/-- A conflict of an identifier without a verifier is with an inception. -/
theorem sn_of_trialVerify {kevers : Table String Kever} {r : ProcessResult} {s : Serder}
    {sigs : List Siger} (hheader : s.header = .ok r) (hnone : kevers.get r.pfx = none)
    (h : Judge.trialVerify X kevers r s sigs = .ok ⟨⟩) : r.sn = 0 := by
  unfold Judge.trialVerify at h
  split at h
  · obtain ⟨verfers, -, hnew⟩ := bind_eq_ok.1 h
    obtain ⟨k, hk, -⟩ := bind_eq_ok.1 hnew
    obtain ⟨-, -, hincept⟩ := Kever.new_eq_ok.1 (mapError_eq_ok.1 hk)
    obtain ⟨icp, hicp, -, -, -, hstate, -⟩ := Kever.incept_eq_ok.1 hincept
    obtain ⟨hzero, -⟩ := KeyState.fromInception_eq_ok.1 hstate
    obtain ⟨-, -, hs⟩ := InceptionEvent.fields hicp
    obtain ⟨-, hsn, -, -⟩ := Serder.header_eq_ok.1 hheader
    obtain ⟨text, htext, hnum⟩ := Serder.sn_eq_ok.1 hsn
    rw [hs, Option.some_inj, Value.string.injEq] at htext
    rw [htext, hnum, Option.some_inj] at hzero
    exact hzero
  · split at h
    · rw [hnone] at h
      cases h
    · cases h

/-- What a run keeps of an identifier of which nothing passes. -/
structure Unknown (j : Judge) (pfx : String) : Prop where
  kever : j.node.kevers.get pfx = none
  unseen : j.node.store.tables.fels.get (snKey pfx 0) = none
  unflagged : pfx ∉ j.flagged

theorem Unknown.step {j : Judge} {data : Bytes} (h : Unknown j pfx)
    (hrefused : ∀ parsed size r sigs k, parseNext X data = .ok (parsed, size) →
      AcceptedBy X none parsed r sigs k → r.pfx ≠ pfx) :
    Unknown (stepJudge X disk j data) pfx := by
  have hunflagged : pfx ∉ (stepJudge X disk j data).flagged := by
    intro hflag
    obtain ⟨parsed, size, r, -, hheader, rfl, hseen, htrial⟩ :=
      stepJudge_flags X disk h.unflagged hflag
    rw [sn_of_trialVerify hheader h.kever htrial, h.unseen] at hseen
    cases hseen
  rcases stepJudge_cases X disk j data with
    hquiet | ⟨parsed, size, r, sigs, k, hparse, -, hadmits⟩
  · refine ⟨?_, ?_, hunflagged⟩
    · rw [hquiet.kevers]
      exact h.kever
    · rw [hquiet.fels]
      exact h.unseen
  · have hne : pfx ≠ r.pfx := by
      rintro rfl
      have hacc := hadmits.accepted
      rw [h.kever] at hacc
      exact hrefused parsed size r sigs k hparse hacc rfl
    obtain ⟨-, -, -, hlt, -⟩ := hadmits.accepted.advance
    have hkey : snKey pfx 0 ≠ snKey r.pfx r.sn :=
      fun heq => hne (snKey_inj (by decide) hlt heq).1
    refine ⟨?_, ?_, hunflagged⟩
    · rw [hadmits.kevers, Table.get_put_of_ne _ hne]
      exact h.kever
    · rw [hadmits.tables, Tables.putLogged_fels, Table.get_put_of_ne _ hkey]
      exact h.unseen

theorem unknown_run {start : Store} (hstart : start.tables.fels.get (snKey pfx 0) = none)
    (hrefused : ∀ data ∈ msgs, ∀ parsed size r sigs k, parseNext X data = .ok (parsed, size) →
      AcceptedBy X none parsed r sigs k → r.pfx ≠ pfx) :
    Unknown (runJudge X disk start msgs) pfx := by
  induction msgs using List.reverseRecOn with
  | nil => exact ⟨rfl, hstart, Finset.notMem_empty pfx⟩
  | append_singleton msgs data ih =>
      rw [runJudge_concat]
      refine (ih fun d hd => hrefused d (List.mem_append_left _ hd)).step ?_
      exact hrefused data (List.mem_append_right _ List.mem_cons_self)

/-- **An identifier of which nothing can be accepted recovers.** -/
theorem recovers_of_untouched (hflag : (runJudge X disk store msgs).isDuplicitous pfx = false)
    (h : Untouched X disk store msgs pfx) :
    Recovers X disk (runJudge X disk store msgs) (restarted X disk store msgs) pfx := by
  have hunknown : Unknown (restarted X disk store msgs) pfx := unknown_run h.unseen h.refused
  have hunflagged : pfx ∉ (runJudge X disk store msgs).flagged := by
    rw [← Judge.isDuplicitous_iff, hflag]
    exact Bool.false_ne_true
  refine ⟨by rw [hunknown.kever, h.unknown], ?_, ?_⟩
  · unfold Judge.verdict
    rw [if_neg hunknown.unflagged, if_neg hunflagged, hunknown.kever, h.unknown]
  · intro data parsed size r sigs k hparse hpfx hacc hdisk hdisk'
    rw [h.unknown] at hacc
    have hzero : r.sn = 0 := by
      obtain ⟨-, -, -, -, -, hkind⟩ := hacc.advance
      rcases hkind with ⟨-, -, hzero, -⟩ | ⟨k₀, hk₀, -⟩
      · exact hzero
      · cases hk₀
    rw [← hpfx] at hunknown
    rw [← hunknown.kever] at hacc
    have hunseen := hunknown.unseen
    rw [← hzero] at hunseen
    have hrun := process_of_accepted hparse hacc hunknown.unflagged hunseen hdisk hdisk'
    exact ⟨_, hrun, recorded_logged hacc⟩

/-! ### A store that is empty at first and does not fail -/

/-- A verifier is never dropped. -/
theorem known_step {j : Judge} (data : Bytes) (h : (j.node.kevers.get pfx).isSome) :
    ((stepJudge X disk j data).node.kevers.get pfx).isSome := by
  rcases stepJudge_cases X disk j data with hquiet | ⟨parsed, size, r, sigs, k, -, -, hadmits⟩
  · rw [hquiet.kevers]
    exact h
  · rw [hadmits.kevers]
    exact Table.get_put_isSome h _ _

/-- An identifier is never unflagged. -/
theorem flagged_step {j : Judge} (data : Bytes) (h : pfx ∈ j.flagged) :
    pfx ∈ (stepJudge X disk j data).flagged := by
  rcases stepJudge_evidence X disk j data with ⟨hflagged, -⟩ | ⟨e, -, hrun⟩
  · rw [hflagged]
    exact h
  · rw [stepJudge_of_ok hrun, Judge.recordDuplicity_flagged]
    exact Finset.mem_insert_of_mem h

/-- There, whatever has no verifier is untouched. -/
theorem untouched_of_unknown
    (hflag : (runJudge X .sound .empty msgs).isDuplicitous pfx = false)
    (h : (runJudge X .sound .empty msgs).node.kevers.get pfx = none) :
    Untouched X .sound .empty msgs pfx := by
  have hunseen : ∀ (pre post : List Bytes), msgs = pre ++ post → ∀ sn < u64Bound,
      (runJudge X .sound .empty pre).node.kevers.get pfx = none →
      (runJudge X .sound .empty pre).node.store.tables.fels.get (snKey pfx sn) = none := by
    intro pre post _ sn hsn hnone
    cases hseen : (runJudge X .sound .empty pre).node.store.tables.fels.get (snKey pfx sn) with
    | none => rfl
    | some said =>
        have hsync : Synced X (runJudge X .sound .empty pre).node.kevers
          (runJudge X .sound .empty pre).node.store.tables.fels := synced_runJudge pre
        obtain ⟨pfx', k, sn', hk, hkey, hle⟩ := hsync.known _ said hseen
        have hlt := (hsync.tracks pfx' k hk).sn_lt
        obtain ⟨rfl, -⟩ := snKey_inj hsn (by omega) hkey
        rw [hnone] at hk
        cases hk
  refine ⟨h, hunseen msgs [] (by simp) 0 (by decide) h, ?_⟩
  intro data hdata parsed size r sigs k hparse hacc hpfx
  obtain ⟨pre, post, rfl⟩ := List.append_of_mem hdata
  -- what holds at the end held when the message came
  have hafter : ∀ {P : Judge → Prop}, (∀ j data, P j → P (stepJudge X .sound j data)) →
      ∀ mid, P (runJudge X .sound .empty (pre ++ mid)) →
      ∀ rest, P (runJudge X .sound .empty ((pre ++ mid) ++ rest)) := by
    intro P hstep mid hmid rest
    rw [runJudge_append]
    exact run_inv rest hmid hstep
  have hnone : (runJudge X .sound .empty pre).node.kevers.get pfx = none := by
    by_contra hne
    have hsome := hafter (P := fun j => (j.node.kevers.get pfx).isSome)
      (fun j d hj => known_step d hj) [] (by
        rw [List.append_nil]
        exact Option.isSome_iff_ne_none.2 hne) (data :: post)
    rw [List.append_nil, h] at hsome
    cases hsome
  have hunflagged : pfx ∉ (runJudge X .sound .empty pre).flagged := by
    intro hmem
    have hflagged := hafter (P := fun j => pfx ∈ j.flagged) (fun j d hj => flagged_step d hj) []
      (by rw [List.append_nil]; exact hmem) (data :: post)
    rw [List.append_nil, ← Judge.isDuplicitous_iff, hflag] at hflagged
    cases hflagged
  -- so it was accepted, and the identifier has had a verifier ever since
  obtain ⟨-, -, -, hlt, -⟩ := hacc.advance
  rw [← hpfx] at hnone hunflagged
  rw [← hnone] at hacc
  have hnew : (runJudge X .sound .empty pre).node.store.tables.fels.get (snKey r.pfx r.sn) =
      none := by
    rw [hpfx] at hnone ⊢
    exact hunseen pre (data :: post) rfl r.sn hlt hnone
  have hrun : Judge.process X .sound data (runJudge X .sound .empty pre) = _ :=
    process_of_accepted hparse hacc hunflagged hnew rfl rfl
  have hknown : ((runJudge X .sound .empty (pre ++ [data])).node.kevers.get r.pfx).isSome := by
    rw [runJudge_concat, stepJudge_of_ok hrun]
    exact Option.isSome_of_eq_some (Table.get_put_self _ _ _)
  have hsome := hafter (P := fun j => (j.node.kevers.get r.pfx).isSome)
    (fun j d hj => known_step d hj) [data] hknown post
  rw [hpfx, List.append_assoc, List.singleton_append, h] at hsome
  cases hsome

/-- **What recovers.**  An identifier that is not flagged recovers only if it has no verifier, and
it does when nothing of it can be accepted.  Over a store that is empty at first and does not fail,
that it has no verifier is enough. -/
theorem restart_recovers (hflag : (runJudge X disk store msgs).isDuplicitous pfx = false) :
    (Recovers X disk (runJudge X disk store msgs) (restarted X disk store msgs) pfx →
      (runJudge X disk store msgs).node.kevers.get pfx = none) ∧
    (Untouched X disk store msgs pfx →
      Recovers X disk (runJudge X disk store msgs) (restarted X disk store msgs) pfx) ∧
    (store = .empty → disk = .sound →
      (Recovers X disk (runJudge X disk store msgs) (restarted X disk store msgs) pfx ↔
        (runJudge X disk store msgs).node.kevers.get pfx = none)) := by
  refine ⟨unknown_of_recovers, recovers_of_untouched hflag, ?_⟩
  rintro rfl rfl
  exact ⟨unknown_of_recovers, fun h => recovers_of_untouched hflag (untouched_of_unknown hflag h)⟩

/-! ### An instance -/

theorem restart_recovers_toy :
    Recovers Toy.lib .sound (runJudge Toy.lib .sound .empty [toyIxnMessage])
      (restarted Toy.lib .sound .empty [toyIxnMessage]) (Toy.pfxOf Toy.icp) := by
  have hflag : (runJudge Toy.lib .sound .empty [toyIxnMessage]).isDuplicitous
      (Toy.pfxOf Toy.icp) = false := by decide +kernel
  have hnone : ((runJudge Toy.lib .sound .empty [toyIxnMessage]).node.kevers.get
      (Toy.pfxOf Toy.icp)).isNone = true := by decide +kernel
  exact ((restart_recovers hflag).2.2 rfl rfl).2 (Option.isNone_iff_eq_none.1 hnone)

/-- A judge that is restarted after an inception does not know its identifier any more. -/
theorem restarted_unknown :
    ¬ ∀ (X : Externals) (disk : Disk) (store : Store) (msgs : List Bytes) (pfx : String),
      (runJudge X disk store msgs).isDuplicitous pfx = false →
      Recovers X disk (runJudge X disk store msgs) (restarted X disk store msgs) pfx := by
  intro hclaim
  have hflag : (runJudge Toy.lib .sound .empty [toyIcpMessage]).isDuplicitous
      (Toy.pfxOf Toy.icp) = false := by decide +kernel
  have hknown : ((runJudge Toy.lib .sound .empty [toyIcpMessage]).node.kevers.get
      (Toy.pfxOf Toy.icp)).isSome = true := by decide +kernel
  have hnone := unknown_of_recovers (hclaim _ _ _ _ _ hflag)
  rw [hnone] at hknown
  cases hknown

end Keri
