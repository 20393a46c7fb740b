/-
**Records of identifiers over restarts.**

An inception is refused when its name is registered with the manager, and writes the record of its
name otherwise.  A new manager over the same store has nothing registered until names are resumed,
so an inception may write over the record of an identifier from before.

* `Keri.Habery.Op`, `Keri.Habery.runOps` — the operations of a manager, with restarts;
* `Keri.Habery.incept_cases` — what an inception does, when it succeeds and when it does not;
* `Keri.Habery.incept_refused_iff` — it is refused as existing exactly when its name is registered;
* `Keri.Habery.stepOp_records`, `Keri.Habery.stepOp_registered` — the records that an operation
  writes and the names that it leaves registered;
* `Keri.Habery.records_kept_iff` — **a name with a record is refused exactly when it is
  registered**, and records stay when all inceptions are of names that are registered or have none;
* `Keri.Habery.stored_registered` — which is so as long as there is no restart;
* `Keri.Habery.record_overwritten` — an inception after a restart.
-/

import Keri.Habery

set_option relaxedAutoImplicit false
set_option autoImplicit false

namespace Keri

open Outcome Machine

namespace Habery

/-! ### Operations -/

/-- An operation of a manager, or a new manager over its store.  `edit` is what is done through
`get_mut`: the identifier becomes another. -/
inductive Op where
  | incept (name : String) (config : InceptionConfig) (random : Bytes)
  | rotate (name : String) (config : RotationConfig)
  | interact (name : String) (anchors : List Value)
  | resume (name : String) (salt : Bytes)
  | edit (name : String) (hab : Hab)
  | restart

variable (X : Externals) (disk : Disk)

/-- The manager after an operation, whether it succeeds or not. -/
def stepOp (h : Habery) : Op → Habery
  | .incept name config random => stateAfter (incept X disk name config random h)
  | .rotate name config => stateAfter (rotate X disk name config h)
  | .interact name anchors => stateAfter (interact X disk name anchors h)
  | .resume name salt => stateAfter (resume X disk name salt h)
  | .edit name hab => if (h.habs.get name).isSome then { h with habs := h.habs.put name hab } else h
  | .restart => new h.store

/-- The manager after a sequence of operations, from a manager that knows no identifier. -/
def runOps (start : Store) (ops : List Op) : Habery := run (stepOp X disk) (new start) ops

/-- The name is registered. -/
def Registered (h : Habery) (name : String) : Prop := (h.habs.get name).isSome

/-- There is a record under the name. -/
def Stored (h : Habery) (name : String) : Prop := (h.store.tables.habs.get name).isSome

variable {X disk}

/-- A restart leaves the records. -/
theorem stored_new {h : Habery} {name : String} : Stored (new h.store) name ↔ Stored h name :=
  Iff.rfl

/-- A new manager has no name registered. -/
theorem not_registered_new (store : Store) (name : String) : ¬ Registered (new store) name := by
  rw [Registered, new, Table.get_empty]
  exact Bool.false_ne_true

/-! ### Inceptions -/

/-- The error is not that a name exists. -/
def NotExists (e : KeriError) : Prop := ∀ name, e ≠ .alreadyExists name

theorem errorsIn_deriveSigners (salter : Salter) (code : String) (transferable : Bool)
    (generation count : ℕ) :
    ErrorsIn NotExists (deriveSigners X salter code transferable generation count) :=
  errorsIn_mapM (fun _ => errorsIn_mapError (fun _ _ he => by cases he) _) _

theorem errorsIn_signAll (raw : Bytes) (i : ℕ) (signers : List Signer) :
    ErrorsIn NotExists (signAll X raw i signers) := by
  induction signers generalizing i with
  | nil => exact errorsIn_ok []
  | cons signer signers ih =>
      refine (errorsIn_mapError (fun _ _ he => by cases he) _).bind fun _ => ?_
      refine (errorsIn_mapError (fun _ _ he => by cases he) _).bind fun _ => ?_
      exact (ih (i + 1)).bind fun _ => errorsIn_ok _

theorem errorsIn_sealEvent (fields : Fields) (signers : List Signer) :
    ErrorsIn NotExists (sealEvent X fields signers) := by
  have hmap : ∀ {ε α : Type} {f : ε → KeriError} (x : Except ε α), (∀ e, NotExists (f e)) →
      ErrorsIn NotExists (x.mapError f) := fun x hf => errorsIn_mapError hf x
  refine ErrorsIn.bind ?_ fun _ => ?_
  · exact (hmap _ fun _ _ he => by cases he).bind fun _ => errorsIn_ok _
  refine (hmap _ fun _ _ he => by cases he).bind fun _ => ?_
  refine (hmap _ fun _ _ he => by cases he).bind fun _ => ?_
  refine (errorsIn_signAll _ 0 signers).bind fun _ => ?_
  refine (hmap _ fun _ _ he => by cases he).bind fun _ => ?_
  refine (hmap _ fun _ _ he => by cases he).bind fun _ => ?_
  exact (hmap _ fun _ _ he => by cases he).bind fun _ => errorsIn_ok _

/-- **Building an inception never fails since a name exists.** -/
theorem errorsIn_inceptEvent (name : String) (config : InceptionConfig) (random : Bytes) :
    ErrorsIn NotExists (Hab.inceptEvent X name config random) := by
  refine (errorsIn_mapError (fun _ _ he => by cases he) _).bind fun salter => ?_
  refine (errorsIn_deriveSigners _ _ _ _ _).bind fun signers => ?_
  refine (errorsIn_deriveSigners _ _ _ _ _).bind fun nextSigners => ?_
  refine (errorsIn_mapM (fun _ => errorsIn_mapError (fun _ _ he => by cases he) _) _).bind
    fun keys => ?_
  refine (errorsIn_mapM (fun s => ?_) _).bind fun digests => ?_
  · exact (errorsIn_mapError (fun _ _ he => by cases he) _).bind fun _ =>
      errorsIn_mapError (fun _ _ he => by cases he) _
  refine (errorsIn_sealEvent _ _).bind fun event => ?_
  exact (errorsIn_mapError (fun _ _ he => by cases he) _).bind fun _ => errorsIn_ok _

variable (X disk) in
/-- The ways an inception can go. -/
inductive Incepted (name : String) (config : InceptionConfig) (random : Bytes) (h : Habery) :
    Prop where
  | refused : Registered h name →
      incept X disk name config random h = .error (.alreadyExists name) h →
      Incepted name config random h
  | failed {e : KeriError} {h' : Habery} : ¬ Registered h name → NotExists e →
      incept X disk name config random h = .error e h' → h'.habs = h.habs →
      h'.store.tables = h.store.tables → Incepted name config random h
  | done {msg habBytes : Bytes} {hab : Hab} {h' : Habery} : ¬ Registered h name →
      incept X disk name config random h = .ok msg h' → h'.habs = h.habs.put name hab →
      h'.store.tables.habs = h.store.tables.habs.put name habBytes → Incepted name config random h

/-- **What an inception does**: it is refused since its name is registered, or fails for another
reason and writes nothing, or registers its name and writes its record. -/
theorem incept_cases (name : String) (config : InceptionConfig) (random : Bytes) (h : Habery) :
    Incepted X disk name config random h := by
  cases hrun : incept X disk name config random h with
  | ok msg h' =>
      obtain ⟨hab, event, habBytes, -, hnew, hhabs, hrecords, -⟩ := incept_ok hrun
      refine .done ?_ hrun hhabs hrecords
      unfold Registered
      simp [hnew]
  | error e h' =>
      have herror := hrun
      unfold incept at herror
      rw [bind_run_of_ok get_run] at herror
      rcases bind_run_error.1 herror with hensure | ⟨⟨⟩, h₁, hensure, hinner⟩
      · obtain ⟨hexists, rfl⟩ := lift_run_error.1 hensure
        obtain ⟨hsome, rfl⟩ := ensure_eq_error.1 hexists
        refine .refused ?_ hrun
        unfold Registered
        simpa [Option.isSome_iff_ne_none] using hsome
      · obtain ⟨hnew, rfl⟩ := lift_run_ok.1 hensure
        have hnot : ¬ Registered h₁ name := by
          unfold Registered
          rw [ensure_eq_ok] at hnew
          simpa using hnew
        rcases bind_run_error.1 hinner with hstored | ⟨_, _, -, hregister⟩
        · obtain ⟨e₀, store, hhab, rfl, rfl⟩ := zoom_run_error.1 hstored
          rcases bind_run_error.1 hhab with hlift | ⟨⟨hab, event, habBytes⟩, s₁, hlift, hpersist⟩
          · obtain ⟨hevent, rfl⟩ := lift_run_error.1 hlift
            exact .failed hnot (errorsIn_inceptEvent name config random _ hevent) hrun rfl rfl
          · obtain ⟨-, rfl⟩ := lift_run_ok.1 hlift
            rcases bind_run_error.1 hpersist with hzoom | ⟨_, _, -, hpure⟩
            · obtain ⟨_, s₂, hwrite, rfl, rfl⟩ := zoom_run_error.1 hzoom
              obtain ⟨-, rfl⟩ := Store.write_error.1 hwrite
              exact .failed hnot (fun _ he => by cases he) hrun rfl rfl
            · cases hpure
        · cases hregister

/-- **An inception is refused as existing, and changes nothing, exactly when its name is
registered.** -/
theorem incept_refused_iff {name : String} {config : InceptionConfig} {random : Bytes}
    {h : Habery} :
    incept X disk name config random h = .error (.alreadyExists name) h ↔ Registered h name := by
  cases @incept_cases X disk name config random h with
  | refused hreg hrun => exact ⟨fun _ => hreg, fun _ => hrun⟩
  | failed hnot hne hrun =>
      refine ⟨fun hrefused => ?_, fun hreg => absurd hreg hnot⟩
      rw [hrun] at hrefused
      exact absurd (EStateM.Result.error.inj hrefused).1 (hne name)
  | done hnot hrun =>
      refine ⟨fun hrefused => ?_, fun hreg => absurd hreg hnot⟩
      rw [hrun] at hrefused
      cases hrefused

/-! ### The other operations -/

/-- The records are what they were, and the names that were registered still are. -/
def Steady (h h' : Habery) : Prop :=
  h'.store.tables.habs = h.store.tables.habs ∧ ∀ name, Registered h name → Registered h' name

theorem Steady.refl (h : Habery) : Steady h h := ⟨rfl, fun _ hname => hname⟩

theorem steady_trans (h₁ h₂ h₃ : Habery) (h : Steady h₁ h₂) (h' : Steady h₂ h₃) : Steady h₁ h₃ :=
  ⟨h'.1.trans h.1, fun name hname => h'.2 name (h.2 name hname)⟩

/-- Registering a name registers no other name less. -/
theorem registered_put {h : Habery} {name : String} {hab : Hab} {store : Store} (n : String)
    (hn : Registered h n) : Registered { store, habs := h.habs.put name hab } n := by
  unfold Registered at hn ⊢
  exact Table.get_put_isSome hn name hab

theorem steady_call (name : String) (c : Hab.Call) : Keeps Steady (call X disk name c) := by
  intro h
  rw [call_eq]
  unfold withHab
  split
  · exact Steady.refl h
  · rename_i hab _
    obtain ⟨store', hstore, hrecords⟩ := @records_of_call X disk c ⟨hab, some h.store⟩ _ rfl
    have hput : ∀ k : Keeper, k.store = some store' → Steady h (h.put name k) := by
      intro k hk
      refine ⟨?_, fun n hn => registered_put n hn⟩
      rw [put, hk]
      exact hrecords
    split
    · rename_i hrun
      rw [hrun] at hstore
      exact hput _ hstore
    · rename_i hrun
      rw [hrun] at hstore
      exact hput _ hstore

theorem steady_resume (name : String) (salt : Bytes) : Keeps Steady (resume X disk name salt) := by
  have hlift : ∀ {α : Type} (x : Except KeriError α),
      Keeps Steady (lift x : EStateM KeriError Habery α) :=
    fun x => Keeps.lift Steady.refl x
  unfold resume
  refine Keeps.bind steady_trans ?_ fun raw => ?_
  · intro h
    unfold onStore zoom
    split
    · rename_i hread
      obtain ⟨-, -, rfl⟩ := Store.read_ok.1 hread
      exact ⟨rfl, fun _ hn => hn⟩
    · rename_i hread
      obtain ⟨-, rfl⟩ := Store.read_error.1 hread
      exact ⟨rfl, fun _ hn => hn⟩
  refine Keeps.bind steady_trans (hlift _) fun raw => ?_
  refine Keeps.bind steady_trans (hlift _) fun value => ?_
  refine Keeps.bind steady_trans (hlift _) fun state => ?_
  refine Keeps.bind steady_trans (hlift _) fun hab => ?_
  intro h
  rw [bind_run_of_ok get_run]
  exact ⟨rfl, fun n hn => registered_put n hn⟩

/-- **The record that an operation writes**: only an inception writes one, under a name that is not
registered. -/
theorem stepOp_records (h : Habery) (op : Op) :
    (stepOp X disk h op).store.tables.habs = h.store.tables.habs ∨
      ∃ name config random habBytes, op = .incept name config random ∧ ¬ Registered h name ∧
        Registered (stepOp X disk h op) name ∧
        (stepOp X disk h op).store.tables.habs = h.store.tables.habs.put name habBytes := by
  cases op with
  | incept name config random =>
      rw [stepOp]
      cases @incept_cases X disk name config random h with
      | refused _ hrun => exact Or.inl (by rw [hrun, stateAfter_error])
      | failed _ _ hrun _ htables => exact Or.inl (by rw [hrun, stateAfter_error, htables])
      | done hnot hrun hhabs hrecords =>
          refine Or.inr ⟨name, config, random, _, rfl, hnot, ?_, by rw [hrun]; exact hrecords⟩
          rw [hrun, stateAfter_ok, Registered, hhabs, Table.get_put_self]
          rfl
  | rotate name config => exact Or.inl (steady_call name (.rotate config) h).1
  | interact name anchors => exact Or.inl (steady_call name (.interact anchors) h).1
  | resume name salt => exact Or.inl (steady_resume name salt h).1
  | edit name hab =>
      rw [stepOp]
      split <;> exact Or.inl rfl
  | restart => exact Or.inl rfl

/-- **The names that stay registered**: all, but for a restart. -/
theorem stepOp_registered {h : Habery} {op : Op} (hop : op ≠ .restart) {n : String}
    (hn : Registered h n) : Registered (stepOp X disk h op) n := by
  cases op with
  | incept name config random =>
      rw [stepOp]
      cases @incept_cases X disk name config random h with
      | refused _ hrun =>
          rw [hrun]
          exact hn
      | failed _ _ hrun hhabs =>
          rw [hrun, stateAfter_error, Registered, hhabs]
          exact hn
      | done _ hrun hhabs =>
          rw [hrun, stateAfter_ok, Registered, hhabs]
          exact Table.get_put_isSome hn name _
  | rotate name config => exact (steady_call name (.rotate config) h).2 n hn
  | interact name anchors => exact (steady_call name (.interact anchors) h).2 n hn
  | resume name salt => exact (steady_resume name salt h).2 n hn
  | edit name hab =>
      rw [stepOp]
      split
      · exact registered_put n hn
      · exact hn
  | restart => exact absurd rfl hop

/-! ### Runs -/

variable {start : Store}

theorem runOps_concat (ops : List Op) (op : Op) :
    runOps X disk start (ops ++ [op]) = stepOp X disk (runOps X disk start ops) op :=
  run_concat _ ops op

/-- **As long as there is no restart, a name with a record is registered.** -/
theorem stored_registered {ops : List Op} (hstart : ∀ name, ¬ Stored (new start) name)
    (hops : Op.restart ∉ ops) {name : String} (h : Stored (runOps X disk start ops) name) :
    Registered (runOps X disk start ops) name := by
  induction ops using List.reverseRecOn with
  | nil => exact absurd h (hstart name)
  | append_singleton ops op ih =>
      rw [List.mem_append, List.mem_singleton, not_or] at hops
      rw [runOps_concat] at h ⊢
      obtain hsame | ⟨name', config, random, habBytes, -, -, hreg, hput⟩ :=
        @stepOp_records X disk (runOps X disk start ops) op
      · rw [Stored, hsame] at h
        exact stepOp_registered (Ne.symm hops.2) (ih hops.1 h)
      · by_cases hname : name = name'
        · rw [hname]
          exact hreg
        · rw [Stored, hput, Table.get_put_of_ne _ hname] at h
          exact stepOp_registered (Ne.symm hops.2) (ih hops.1 h)

/-- **An inception of a name with a record is refused as existing, and changes nothing, exactly when
the name is registered**, as it is as long as there has been no restart since there were no records.
In a run whose inceptions are all of names that are registered or have no record, no record is
written over. -/
theorem records_kept_iff (start : Store) (ops : List Op) :
    (∀ pre post name config random, ops = pre ++ post →
      Stored (runOps X disk start pre) name →
      (incept X disk name config random (runOps X disk start pre) =
          .error (.alreadyExists name) (runOps X disk start pre) ↔
        Registered (runOps X disk start pre) name)) ∧
    (∀ pre post, ops = pre ++ post → Op.restart ∉ pre → (∀ name, ¬ Stored (new start) name) →
      ∀ name, Stored (runOps X disk start pre) name → Registered (runOps X disk start pre) name) ∧
    ((∀ pre name config random post, ops = pre ++ .incept name config random :: post →
        Stored (runOps X disk start pre) name → Registered (runOps X disk start pre) name) →
      ∀ pre post name habBytes, ops = pre ++ post →
        (runOps X disk start pre).store.tables.habs.get name = some habBytes →
        (runOps X disk start ops).store.tables.habs.get name = some habBytes) := by
  refine ⟨fun _ _ _ _ _ _ _ => incept_refused_iff,
    fun _ _ _ hops hstart _ hstored => stored_registered hstart hops hstored,
    fun hcond pre post => ?_⟩
  -- along what comes after, operation by operation
  induction post using List.reverseRecOn generalizing ops with
  | nil =>
      rintro name habBytes rfl hrecord
      rw [List.append_nil]
      exact hrecord
  | append_singleton post op ih =>
      rintro name habBytes rfl hrecord
      have hprefix : ∀ pre' name config random post',
          pre ++ post = pre' ++ .incept name config random :: post' →
          Stored (runOps X disk start pre') name → Registered (runOps X disk start pre') name := by
        intro pre' name config random post' hsplit
        refine hcond pre' name config random (post' ++ [op]) ?_
        rw [← List.append_assoc, hsplit, List.append_assoc, List.cons_append]
      have hbefore := ih _ hprefix name habBytes rfl hrecord
      rw [← List.append_assoc, runOps_concat]
      obtain hsame | ⟨name', config, random, habBytes', rfl, hnot, -, hput⟩ :=
        @stepOp_records X disk (runOps X disk start (pre ++ post)) op
      · rw [hsame]
        exact hbefore
      · have hne : name ≠ name' := by
          rintro rfl
          refine hnot (hcond (pre ++ post) name config random [] (List.append_assoc _ _ _).symm ?_)
          rw [Stored, hbefore]
          rfl
        rw [hput, Table.get_put_of_ne _ hne]
        exact hbefore

/-- An inception, and another of the same name after a restart. -/
def toyBefore : List Op := [.incept "alice" { salt := some (Toy.salt 7) } []]

def toyAfter : List Op := [.restart, .incept "alice" { salt := some (Toy.salt 8) } []]

/-- The record of the toy name. -/
def toyRecord (ops : List Op) : Option Bytes :=
  (runOps Toy.lib .sound .empty ops).store.tables.habs.get "alice"

theorem toyRecord_overwritten :
    (toyRecord toyBefore).isSome = true ∧
      toyRecord (toyBefore ++ toyAfter) ≠ toyRecord toyBefore := by
  decide +kernel

/-- A second inception without a restart is refused. -/
theorem records_kept_toy :
    incept Toy.lib .sound "alice" {} [] (runOps Toy.lib .sound .empty toyBefore) =
      .error (.alreadyExists "alice") (runOps Toy.lib .sound .empty toyBefore) := by
  have hstored : Stored (runOps Toy.lib .sound .empty toyBefore) "alice" := toyRecord_overwritten.1
  obtain ⟨hrefused, hregistered, -⟩ := @records_kept_iff Toy.lib .sound .empty toyBefore
  have hreg := hregistered toyBefore [] (List.append_nil _).symm (by simp [toyBefore])
    (fun name hname => by cases hname) "alice" hstored
  exact (hrefused toyBefore [] "alice" {} [] (List.append_nil _).symm hstored).2 hreg

/-- After a restart an inception of a name with a record is not refused, and writes over the
record. -/
theorem record_overwritten :
    (¬ ∀ (X : Externals) (disk : Disk) (start : Store) (ops : List Op) (name : String)
      (config : InceptionConfig) (random : Bytes), Stored (runOps X disk start ops) name →
      incept X disk name config random (runOps X disk start ops) =
        .error (.alreadyExists name) (runOps X disk start ops)) ∧
    ¬ ∀ (X : Externals) (disk : Disk) (start : Store) (pre post : List Op) (name : String)
      (habBytes : Bytes), (runOps X disk start pre).store.tables.habs.get name = some habBytes →
      (runOps X disk start (pre ++ post)).store.tables.habs.get name = some habBytes := by
  obtain ⟨hstored, hover⟩ := toyRecord_overwritten
  refine ⟨fun hclaim => ?_, fun hclaim => ?_⟩
  · have hbefore : Stored (runOps Toy.lib .sound .empty toyBefore) "alice" := hstored
    have hafter : Stored (runOps Toy.lib .sound .empty (toyBefore ++ [.restart])) "alice" := by
      rw [runOps_concat, stepOp, stored_new]
      exact hbefore
    have hrefused := hclaim _ _ _ _ _ {} [] hafter
    rw [incept_refused_iff, runOps_concat, stepOp] at hrefused
    exact not_registered_new _ _ hrefused
  · obtain ⟨habBytes, hbytes⟩ := Option.isSome_iff_exists.1 hstored
    rw [hbytes] at hover
    exact hover (hclaim Toy.lib .sound .empty toyBefore toyAfter "alice" habBytes hbytes)

end Habery

end Keri
