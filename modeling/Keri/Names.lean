/-
**A manager keeps its identifiers apart.**

A manager has any number of identifiers over one store.  Each name is a machine of its own, which has
the identifier that is registered under it and the record that is stored under it, and no store
besides: whatever operations are interleaved, those on a name return what they return by themselves,
and leave there what they leave by themselves.

* `Keri.Slot`, `Keri.Slot.step`, `Keri.Slot.reply` — the machine of one name;
* `Keri.Habery.slot`, `Keri.Habery.replyOf` — what a manager has under a name, and what it returns;
* `Keri.call_store` — **a sound store makes no difference to a call**;
* `Keri.Habery.local_slot` — an operation on a name, and one on another;
* `Keri.Habery.names_apart` — **a manager is as many machines as it has names**.
-/

import Keri.Records
import Keri.Lib.Simulation

set_option relaxedAutoImplicit false
set_option autoImplicit false

namespace Keri

open Outcome Machine Simulation

variable (X : Externals)

/-! ### One name -/

/-- What a manager has under one name: the identifier that is registered, and the record that is
stored. -/
structure Slot where
  hab : Option Hab
  record : Option Bytes

/-- What an operation returns: a message, a resumed identifier, or nothing. -/
inductive Reply where
  | message (result : Except KeriError Bytes)
  | resumed (result : Except KeriError Hab)
  | quiet

namespace Slot

/-- An inception: refused when there is an identifier. -/
def incept (name : String) (config : InceptionConfig) (random : Bytes) (s : Slot) :
    Except KeriError Bytes × Slot :=
  if s.hab.isSome then (.error (.alreadyExists name), s)
  else
    match Hab.inceptEvent X name config random with
    | .error e => (.error e, s)
    | .ok (hab, event, record) => (.ok event.composed, ⟨some hab, some record⟩)

/-- A rotation or an interaction, without a store. -/
def call (name : String) (c : Hab.Call) (s : Slot) : Except KeriError Bytes × Slot :=
  match s.hab with
  | none => (.error (.notFound name), s)
  | some hab =>
      match Hab.call X .sound c ⟨hab, none⟩ with
      | .ok event k => (.ok event.composed, { s with hab := some k.hab })
      | .error e k => (.error e, { s with hab := some k.hab })

/-- The identifier that the record and the salt give. -/
def recorded (name : String) (salt : Bytes) (record : Option Bytes) : Except KeriError Hab := do
  let raw ← okOr record (.notFound name)
  let unusable := fun e : SerdeError =>
    KeriError.config s!"stored record for {name.quote} is not resumable state: {e.text}"
  let value ← (X.json.fromSlice raw).mapError unusable
  let state ← (HabState.fromValue value).mapError unusable
  Hab.resume X state salt

/-- A resumption: the identifier that is there stays. -/
def resume (name : String) (salt : Bytes) (s : Slot) : Except KeriError Hab × Slot :=
  match recorded X name salt s.record with
  | .error e => (.error e, s)
  | .ok hab => (.ok (s.hab.getD hab), { s with hab := some (s.hab.getD hab) })

/-- An operation. -/
def step (s : Slot) : Habery.Op → Slot
  | .incept name config random => (incept X name config random s).2
  | .rotate name config => (call X name (.rotate config) s).2
  | .interact name anchors => (call X name (.interact anchors) s).2
  | .resume name salt => (resume X name salt s).2
  | .edit _ hab => if s.hab.isSome then { s with hab := some hab } else s
  | .restart => { s with hab := none }

/-- What it returns. -/
def reply (s : Slot) : Habery.Op → Reply
  | .incept name config random => .message (incept X name config random s).1
  | .rotate name config => .message (call X name (.rotate config) s).1
  | .interact name anchors => .message (call X name (.interact anchors) s).1
  | .resume name salt => .resumed (resume X name salt s).1
  | .edit _ _ | .restart => .quiet

end Slot

namespace Habery

/-- The operation is on the name, or on all of them. -/
def Op.concerns (n : String) : Op → Bool
  | .incept name _ _ | .rotate name _ | .interact name _ | .resume name _ | .edit name _ =>
      decide (name = n)
  | .restart => true

/-- What a manager has under a name. -/
def slot (n : String) (h : Habery) : Slot := ⟨h.habs.get n, h.store.tables.habs.get n⟩

/-- What a manager over a sound store returns. -/
def replyOf (h : Habery) : Op → Reply
  | .incept name config random => .message (resultOf (incept X .sound name config random h))
  | .rotate name config => .message (resultOf (rotate X .sound name config h))
  | .interact name anchors => .message (resultOf (interact X .sound name anchors h))
  | .resume name salt => .resumed (resultOf (resume X .sound name salt h))
  | .edit _ _ | .restart => .quiet

end Habery

variable {X}

/-! ### Calls -/

/-- Persisting with a sound store. -/
theorem persist_sound (event : Hab.SignedEvent) (pfx : String) (sn : ℕ) (hab : Hab) (s : Store) :
    ∃ s', Keeper.persist .sound event pfx sn ⟨hab, some s⟩ = .ok ⟨⟩ ⟨hab, some s'⟩ ∧
      s'.tables.habs = s.tables.habs := by
  refine ⟨_, rfl, ?_⟩
  exact Tables.putLogged_habs

/-- **A sound store makes no difference to a call**, and keeps the records. -/
theorem call_store (c : Hab.Call) (hab : Hab) (s : Store) : ∃ s',
    s'.tables.habs = s.tables.habs ∧
      ((∃ event hab', Hab.call X .sound c ⟨hab, none⟩ = .ok event ⟨hab', none⟩ ∧
          Hab.call X .sound c ⟨hab, some s⟩ = .ok event ⟨hab', some s'⟩) ∨
        ∃ e hab', Hab.call X .sound c ⟨hab, none⟩ = .error e ⟨hab', none⟩ ∧
          Hab.call X .sound c ⟨hab, some s⟩ = .error e ⟨hab', some s'⟩) := by
  have hnone : ∀ (event : Hab.SignedEvent) (pfx : String) (sn : ℕ) (hab : Hab),
      Keeper.persist .sound event pfx sn ⟨hab, none⟩ = .ok ⟨⟩ ⟨hab, none⟩ := fun _ _ _ _ => rfl
  cases c with
  | rotate config =>
      simp only [Hab.call, Hab.rotateInner_run]
      by_cases ht : hab.transferable = true
      · rw [if_neg (by simpa using ht), if_neg (by simpa using ht)]
        cases hrot : hab.rotation X config hab.nextSigners with
        | error e => exact ⟨s, rfl, Or.inr ⟨e, hab.dropped, rfl, rfl⟩⟩
        | ok p =>
            obtain ⟨newNextSigners, event⟩ := p
            obtain ⟨s', hrun, hsame⟩ :=
              persist_sound event hab.pfx (u64Succ hab.sn) hab.dropped s
            simp only [hrun, hnone]
            exact ⟨s', hsame, Or.inl ⟨event, _, rfl, rfl⟩⟩
      · rw [if_pos (by simpa using ht), if_pos (by simpa using ht)]
        exact ⟨s, rfl, Or.inr ⟨_, hab, rfl, rfl⟩⟩
  | interact anchors =>
      simp only [Hab.call, Hab.interactInner_run]
      cases hixn : hab.interaction X anchors with
      | error e => exact ⟨s, rfl, Or.inr ⟨e, hab, rfl, rfl⟩⟩
      | ok event =>
          obtain ⟨s', hrun, hsame⟩ := persist_sound event hab.pfx (u64Succ hab.sn) hab s
          simp only [hrun, hnone]
          exact ⟨s', hsame, Or.inl ⟨event, _, rfl, rfl⟩⟩

namespace Habery

/-- What a call on a name does to the slots, and what it returns. -/
theorem call_slots (name : String) (c : Hab.Call) (h : Habery) :
    resultOf (call X .sound name c h) = (Slot.call X name c (h.slot name)).1 ∧
      (stateAfter (call X .sound name c h)).slot name = (Slot.call X name c (h.slot name)).2 ∧
      ∀ n, n ≠ name → (stateAfter (call X .sound name c h)).slot n = h.slot n := by
  rw [call_eq]
  unfold withHab Slot.call
  cases hname : h.habs.get name with
  | none => simp only [slot, hname, resultOf, stateAfter, and_self, implies_true]
  | some hab =>
      obtain ⟨s', hsame, ⟨event, hab', hrun, hrun'⟩ | ⟨e, hab', hrun, hrun'⟩⟩ :=
        call_store (X := X) c hab h.store
      all_goals
        simp only [slot, hname, hrun, hrun', resultOf, stateAfter, put, Option.getD_some,
          Table.get_put_self, hsame, true_and]
        intro n hn
        rw [Table.get_put_of_ne _ hn]

/-- Creating an identifier over a sound store. -/
theorem hab_incept_sound (name : String) (config : InceptionConfig) (random : Bytes) (s : Store) :
    (∃ e, Hab.inceptEvent X name config random = .error e ∧
      Hab.incept X .sound name config random s = .error e s) ∨
    ∃ hab event bytes s', Hab.inceptEvent X name config random = .ok (hab, event, bytes) ∧
      Hab.incept X .sound name config random s = .ok (hab, event) s' ∧
      s'.tables.habs = s.tables.habs.put name bytes := by
  unfold Hab.incept
  rcases ok_or_error (Hab.inceptEvent X name config random) with ⟨⟨hab, event, bytes⟩, h⟩ | ⟨e, h⟩
  · let tables := s.tables.putLogged event.said event.raw hab.pfx 0 (some event.signatures)
    have hrecords : tables.habs = s.tables.habs := Tables.putLogged_habs
    refine Or.inr ⟨hab, event, bytes,
      { tables := { tables with habs := tables.habs.put name bytes }, calls := s.calls + 1 }, h,
      ?_, ?_⟩
    · rw [bind_run_of_ok (lift_run_ok.2 ⟨h, rfl⟩)]
      rfl
    · change tables.habs.put name bytes = _
      rw [hrecords]
  · exact Or.inl ⟨e, h, bind_run_of_error (lift_run_error.2 ⟨h, rfl⟩)⟩

/-- What an inception does to the slots, and what it returns. -/
theorem incept_slots (name : String) (config : InceptionConfig) (random : Bytes) (h : Habery) :
    resultOf (incept X .sound name config random h) =
        (Slot.incept X name config random (h.slot name)).1 ∧
      (stateAfter (incept X .sound name config random h)).slot name =
        (Slot.incept X name config random (h.slot name)).2 ∧
      ∀ n, n ≠ name → (stateAfter (incept X .sound name config random h)).slot n = h.slot n := by
  unfold incept Slot.incept
  rw [bind_run_of_ok get_run]
  cases hname : h.habs.get name with
  | some hab =>
      have hsome : (h.slot name).hab.isSome = true := Option.isSome_of_eq_some hname
      rw [if_pos hsome]
      exact ⟨rfl, rfl, fun _ _ => rfl⟩
  | none =>
      have hnone : ¬ (h.slot name).hab.isSome = true := by
        simp [slot, hname]
      have hensure : (lift (ensure ((none : Option Hab).isNone = true)
          (KeriError.alreadyExists name)) : EStateM KeriError Habery Unit) h = .ok ⟨⟩ h := rfl
      rw [if_neg hnone, bind_run_of_ok hensure]
      rcases hab_incept_sound name config random h.store with
        ⟨e, hevent, hrun⟩ | ⟨hab, event, bytes, s', hevent, hrun, hrecords⟩
      · have hfail : onStore id (Hab.incept X .sound name config random) h = .error e h :=
          zoom_run_error.2 ⟨e, _, hrun, rfl, rfl⟩
        rw [bind_run_of_error hfail, hevent]
        exact ⟨rfl, rfl, fun _ _ => rfl⟩
      · have hdone : onStore id (Hab.incept X .sound name config random) h =
            .ok (hab, event) { h with store := s' } := zoom_run_ok.2 ⟨_, hrun, rfl⟩
        rw [bind_run_of_ok hdone, hevent]
        refine ⟨rfl, ?_, fun n hn => ?_⟩
        · change Slot.mk ((h.habs.put name hab).get name) (s'.tables.habs.get name) = _
          rw [hrecords, Table.get_put_self, Table.get_put_self]
        · change Slot.mk ((h.habs.put name hab).get n) (s'.tables.habs.get n) = _
          rw [hrecords, Table.get_put_of_ne _ hn, Table.get_put_of_ne _ hn]
          rfl

/-- What a resumption does to the slots, and what it returns. -/
theorem resume_slots (name : String) (salt : Bytes) (h : Habery) :
    resultOf (resume X .sound name salt h) = (Slot.resume X name salt (h.slot name)).1 ∧
      (stateAfter (resume X .sound name salt h)).slot name =
        (Slot.resume X name salt (h.slot name)).2 ∧
      ∀ n, n ≠ name → (stateAfter (resume X .sound name salt h)).slot n = h.slot n := by
  have hread : onStore .db (Store.getHab .sound name) h = .ok (h.store.tables.habs.get name)
      { h with store := { h.store with calls := h.store.calls + 1 } } := rfl
  have hrun : resume X .sound name salt h =
      (do let hab ← lift (Slot.recorded X name salt (h.store.tables.habs.get name))
          let h ← get
          let hab := (h.habs.get name).getD hab
          set { h with habs := h.habs.put name hab }
          pure hab : EStateM KeriError Habery Hab)
        { h with store := { h.store with calls := h.store.calls + 1 } } := by
    unfold resume Slot.recorded
    rw [bind_run_of_ok hread]
    simp only [lift_bind, bind_assoc]
  rw [hrun]
  unfold Slot.resume
  rcases ok_or_error (Slot.recorded X name salt (h.store.tables.habs.get name)) with
    ⟨hab, hrec⟩ | ⟨e, hrec⟩
  · rw [bind_run_of_ok (lift_run_ok.2 ⟨hrec, rfl⟩)]
    simp only [slot, hrec]
    refine ⟨rfl, ?_, fun n hn => ?_⟩
    · exact congrArg (Slot.mk · (h.store.tables.habs.get name)) (Table.get_put_self _ _ _)
    · exact congrArg (Slot.mk · (h.store.tables.habs.get n)) (Table.get_put_of_ne _ hn _)
  · rw [bind_run_of_error (lift_run_error.2 ⟨hrec, rfl⟩)]
    simp only [slot, hrec]
    exact ⟨rfl, rfl, fun _ _ => rfl⟩

/-! ### Runs -/

/-- **An operation on a name is that of the name's machine, and one on another leaves it.** -/
theorem local_slot (n : String) : Local (stepOp X .sound) (replyOf X) (slot n) (Op.concerns n)
    (Slot.step X) (Slot.reply X) where
  acts := by
    intro h op hop
    cases op with
    | restart => rfl
    | incept name config random =>
        obtain rfl := of_decide_eq_true hop
        exact (incept_slots name config random h).2.1
    | rotate name config =>
        obtain rfl := of_decide_eq_true hop
        exact (call_slots name (.rotate config) h).2.1
    | interact name anchors =>
        obtain rfl := of_decide_eq_true hop
        exact (call_slots name (.interact anchors) h).2.1
    | resume name salt =>
        obtain rfl := of_decide_eq_true hop
        exact (resume_slots name salt h).2.1
    | edit name hab =>
        obtain rfl := of_decide_eq_true hop
        simp only [stepOp, Slot.step, slot]
        by_cases hsome : (h.habs.get name).isSome = true
        · simp [hsome]
        · simp [hsome]
  puts := by
    intro h op hop
    cases op with
    | restart => rfl
    | incept name config random =>
        obtain rfl := of_decide_eq_true hop
        exact congrArg Reply.message (incept_slots name config random h).1
    | rotate name config =>
        obtain rfl := of_decide_eq_true hop
        exact congrArg Reply.message (call_slots name (.rotate config) h).1
    | interact name anchors =>
        obtain rfl := of_decide_eq_true hop
        exact congrArg Reply.message (call_slots name (.interact anchors) h).1
    | resume name salt =>
        obtain rfl := of_decide_eq_true hop
        exact congrArg Reply.resumed (resume_slots name salt h).1
    | edit name hab => rfl
  stays := by
    intro h op hop
    cases op with
    | restart => cases hop
    | incept name config random =>
        exact (incept_slots name config random h).2.2 n (Ne.symm (of_decide_eq_false hop))
    | rotate name config =>
        exact (call_slots name (.rotate config) h).2.2 n (Ne.symm (of_decide_eq_false hop))
    | interact name anchors =>
        exact (call_slots name (.interact anchors) h).2.2 n (Ne.symm (of_decide_eq_false hop))
    | resume name salt =>
        exact (resume_slots name salt h).2.2 n (Ne.symm (of_decide_eq_false hop))
    | edit name hab =>
        simp only [stepOp]
        split
        · simp only [slot, Table.get_put_of_ne _ (Ne.symm (of_decide_eq_false hop))]
        · rfl

/-- **A manager is as many machines as it has names.**  Whatever operations on a manager over a
sound store are interleaved, with restarts among them and whether they succeed or not: those on a
name return what they return when only they and the restarts are made of a machine that has the
identifier and the record of this name and nothing else, and the manager has under the name what
this machine has. -/
theorem names_apart (start : Store) (ops : List Op) (n : String) :
    (runOps X .sound start ops).slot n =
        run (Slot.step X) ⟨none, start.tables.habs.get n⟩ (ops.filter (Op.concerns n)) ∧
      outputs (stepOp X .sound) (replyOf X) (Op.concerns n) (new start) ops =
        outputs (Slot.step X) (Slot.reply X) (Op.concerns n) ⟨none, start.tables.habs.get n⟩
          (ops.filter (Op.concerns n)) := by
  have hlocal := local_slot (X := X) n
  have hnew : slot n (new start) = ⟨none, start.tables.habs.get n⟩ := by
    unfold slot new
    rw [Table.get_empty]
  rw [← hnew]
  exact ⟨hlocal.run (new start) ops, hlocal.outputs_eq (new start) ops⟩

end Habery

end Keri
