/-
**Identifiers that are kept in a store.**

A `Habery` manages identifiers by name over one store.  With the inception of an identifier a record
of its state is stored, from which it can be resumed; a rotation or an interaction stores its event
and leaves the record as it is.

* `Keri.Habery.incept`, `Keri.Habery.rotate`, `Keri.Habery.interact`, `Keri.Habery.resume` — the
  calls;
* `Keri.HabState.fromValue` — reading a record;
* `Keri.Habery.Resumes` — a new manager over the same store takes the identifier up where it
  stopped;
* `Keri.Habery.resumes_after_calls` — **it does so when nothing was done after the inception, and
  only then**;
* `Keri.Habery.stale_record` — an identifier that is resumed at its inception after an interaction.
-/

import Keri.Resume
import Keri.Event

set_option relaxedAutoImplicit false
set_option autoImplicit false

namespace Keri

open Outcome

/-! ### Reading a record -/

/-- A `usize` or a `u64`. -/
def readUnsigned (v : Value) : Except SerdeError ℕ :=
  match v with
  | .number (.posInt n) => .ok n
  | _ => .error ⟨"invalid type: expected an unsigned integer"⟩

def readBool (v : Value) : Except SerdeError Bool :=
  match v with
  | .bool b => .ok b
  | _ => .error ⟨"invalid type: expected a boolean"⟩

/-- `serde_json::from_slice` at `HabState`, once the text is parsed; it also takes the members as an
array. -/
def HabState.fromValue (v : Value) : Except SerdeError HabState :=
  match v with
  | .array [name, pfx, code, transferable, signerGen, signerCount, nextGen, nextCount, keyGen,
      lastSaid, sn, backerThreshold, backers] => do
      pure { name := ← readString name, pfx := ← readString pfx, code := ← readString code,
             transferable := ← readBool transferable, signerGen := ← readUnsigned signerGen,
             signerCount := ← readUnsigned signerCount, nextGen := ← readUnsigned nextGen,
             nextCount := ← readUnsigned nextCount, keyGen := ← readUnsigned keyGen,
             lastSaid := ← readString lastSaid, sn := ← readUnsigned sn,
             backerThreshold := ← readUnsigned backerThreshold, backers := ← readStrings backers }
  | v => do
      let name ← field readString "name" v
      let pfx ← field readString "prefix" v
      let code ← field readString "code" v
      let transferable ← field readBool "transferable" v
      let signerGen ← field readUnsigned "signer_gen" v
      let signerCount ← field readUnsigned "signer_count" v
      let nextGen ← field readUnsigned "next_gen" v
      let nextCount ← field readUnsigned "next_count" v
      let keyGen ← field readUnsigned "key_gen" v
      let lastSaid ← field readString "last_said" v
      let sn ← field readUnsigned "sn" v
      let backerThreshold ← field readUnsigned "backer_threshold" v
      let backers ← field readStrings "backers" v
      pure { name, pfx, code, transferable, signerGen, signerCount, nextGen, nextCount, keyGen,
             lastSaid, sn, backerThreshold, backers }

/-! ### The manager -/

/-- Identifiers by name, over a store. -/
structure Habery where
  store : Store
  habs : Table String Hab

namespace Habery

/-- A manager that knows no identifier yet. -/
def new (store : Store) : Habery := { store, habs := .empty }

variable (X : Externals) (disk : Disk)

/-- Put back an identifier that was worked on, with the store. -/
def put (h : Habery) (name : String) (k : Keeper) : Habery :=
  { store := k.store.getD h.store, habs := h.habs.put name k.hab }

/-- A procedure on the store. -/
def onStore {ε α : Type} (err : ε → KeriError) (x : EStateM ε Store α) :
    EStateM KeriError Habery α :=
  zoom Habery.store (fun store h => { h with store }) err x

/-- Create an identifier and register it. -/
def incept (name : String) (config : InceptionConfig) (random : Bytes) :
    EStateM KeriError Habery Bytes := do
  let h ← get
  lift (ensure ((h.habs.get name).isNone) (.alreadyExists name))
  let (hab, event) ← onStore id (Hab.incept X disk name config random)
  modify fun h => { h with habs := h.habs.put name hab }
  pure event.composed

/-- A procedure on an identifier that is registered. -/
def withHab (name : String) (x : EStateM KeriError Keeper Hab.SignedEvent) :
    EStateM KeriError Habery Bytes := fun h =>
  match h.habs.get name with
  | none => .error (.notFound name) h
  | some hab =>
      match x ⟨hab, some h.store⟩ with
      | .ok event k => .ok event.composed (h.put name k)
      | .error e k => .error e (h.put name k)

def rotate (name : String) (config : RotationConfig) : EStateM KeriError Habery Bytes :=
  withHab name (Hab.rotateInner X disk config)

def interact (name : String) (anchors : List Value) : EStateM KeriError Habery Bytes :=
  withHab name (Hab.interactInner X disk anchors)

/-- Resume an identifier from the store and its salt.  One that is registered already is left as it
is. -/
def resume (name : String) (salt : Bytes) : EStateM KeriError Habery Hab := do
  let raw ← onStore .db (Store.getHab disk name)
  let raw ← lift (okOr raw (.notFound name))
  let unusable := fun e : SerdeError =>
    KeriError.config s!"stored record for {name.quote} is not resumable state: {e.text}"
  let value ← lift ((X.json.fromSlice raw).mapError unusable)
  let state ← lift ((HabState.fromValue value).mapError unusable)
  let hab ← lift (Hab.resume X state salt)
  let h ← get
  let hab := (h.habs.get name).getD hab
  set { h with habs := h.habs.put name hab }
  pure hab

/-- A rotation or an interaction of an identifier. -/
def call (name : String) (c : Hab.Call) : EStateM KeriError Habery Bytes :=
  match c with
  | .rotate config => rotate X disk name config
  | .interact anchors => interact X disk name anchors

/-- A sequence of such calls, up to the first that fails. -/
def callAll (name : String) : List Hab.Call → EStateM KeriError Habery Unit
  | [] => pure ⟨⟩
  | c :: calls => do
      let _ ← call X disk name c
      callAll name calls

/-! ### What the calls do -/

variable {X disk}

/-- Storing an event writes no record. -/
theorem records_of_persist {event : Hab.SignedEvent} {pfx : String} {sn : ℕ} {k : Keeper}
    {store : Store} (hstore : k.store = some store) :
    ∃ store', (stateAfter (Keeper.persist disk event pfx sn k)).store = some store' ∧
      store'.tables.habs = store.tables.habs := by
  unfold Keeper.persist
  rw [hstore]
  simp only
  split
  · rename_i hwrite
    obtain ⟨-, rfl⟩ := Store.write_ok.1 hwrite
    exact ⟨_, rfl, Tables.putLogged_habs⟩
  · rename_i hwrite
    obtain ⟨-, rfl⟩ := Store.write_error.1 hwrite
    exact ⟨_, rfl, rfl⟩

/-- A rotation or an interaction writes no record, whether it succeeds or not. -/
theorem records_of_call (c : Hab.Call) {k : Keeper} {store : Store}
    (hstore : k.store = some store) :
    ∃ store', (stateAfter (Hab.call X disk c k)).store = some store' ∧
      store'.tables.habs = store.tables.habs := by
  cases c with
  | rotate config =>
      rw [Hab.call, Hab.rotateInner_run]
      split
      · exact ⟨store, hstore, rfl⟩
      · split
        · exact ⟨store, hstore, rfl⟩
        · rename_i event _
          have hpersist := @records_of_persist disk event k.hab.pfx (u64Succ k.hab.sn)
            { k with hab := k.hab.dropped } store hstore
          split
          · rename_i hrun
            rw [hrun] at hpersist
            exact hpersist
          · rename_i hrun
            rw [hrun] at hpersist
            exact hpersist
  | interact anchors =>
      rw [Hab.call, Hab.interactInner_run]
      split
      · exact ⟨store, hstore, rfl⟩
      · rename_i event _
        have hpersist := @records_of_persist disk event k.hab.pfx (u64Succ k.hab.sn) k store hstore
        split
        · rename_i hrun
          rw [hrun] at hpersist
          exact hpersist
        · rename_i hrun
          rw [hrun] at hpersist
          exact hpersist

/-- What a successful call on an identifier does: its number goes up by one, and no record is
written. -/
theorem hab_call_ok {c : Hab.Call} {k k' : Keeper} {store : Store} {event : Hab.SignedEvent}
    (hstore : k.store = some store) (h : Hab.call X disk c k = .ok event k') :
    k'.hab.sn = u64Succ k.hab.sn ∧
      ∃ store', k'.store = some store' ∧ store'.tables.habs = store.tables.habs := by
  have hrecords := @records_of_call X disk c k store hstore
  rw [h, stateAfter_ok] at hrecords
  refine ⟨?_, hrecords⟩
  cases c with
  | rotate config =>
      rw [Hab.call, Hab.rotateInner_run] at h
      split at h
      · cases h
      · split at h
        · cases h
        · split at h
          · cases h
          · obtain ⟨-, rfl⟩ := EStateM.Result.ok.inj h
            rfl
  | interact anchors =>
      rw [Hab.call, Hab.interactInner_run] at h
      split at h
      · cases h
      · split at h
        · cases h
        · obtain ⟨-, rfl⟩ := EStateM.Result.ok.inj h
          rfl

theorem call_eq (name : String) (c : Hab.Call) :
    call X disk name c = withHab name (Hab.call X disk c) := by
  cases c <;> rfl

/-- A successful call, on the registered identifier. -/
theorem call_ok {name : String} {c : Hab.Call} {h h' : Habery} {hab : Hab} {msg : Bytes}
    (hname : h.habs.get name = some hab) (hcall : call X disk name c h = .ok msg h') :
    ∃ hab', h'.habs.get name = some hab' ∧ hab'.sn = u64Succ hab.sn ∧
      h'.store.tables.habs = h.store.tables.habs := by
  rw [call_eq] at hcall
  unfold withHab at hcall
  rw [hname] at hcall
  simp only at hcall
  split at hcall
  · rename_i event k hk
    obtain ⟨-, rfl⟩ := EStateM.Result.ok.inj hcall
    obtain ⟨hsn, store', hstore, hrecords⟩ := hab_call_ok rfl hk
    refine ⟨k.hab, Table.get_put_self _ _ _, hsn, ?_⟩
    rw [put, hstore]
    exact hrecords
  · cases hcall

/-- A sequence of successful calls raises the number by their number, and writes no record. -/
theorem callAll_ok {name : String} {calls : List Hab.Call} {h h' : Habery} {hab : Hab}
    (hname : h.habs.get name = some hab) (hfits : hab.sn + calls.length < u64Bound)
    (hcalls : callAll X disk name calls h = .ok ⟨⟩ h') :
    ∃ hab', h'.habs.get name = some hab' ∧ hab'.sn = hab.sn + calls.length ∧
      h'.store.tables.habs = h.store.tables.habs := by
  induction calls generalizing h hab with
  | nil =>
      obtain ⟨-, rfl⟩ := EStateM.Result.ok.inj hcalls
      exact ⟨hab, hname, rfl, rfl⟩
  | cons c calls ih =>
      obtain ⟨msg, h₁, hcall, hrest⟩ := bind_run_ok.1 hcalls
      obtain ⟨hab₁, hname₁, hsn₁, hrecords₁⟩ := call_ok hname hcall
      rw [List.length_cons] at hfits
      have hsucc : hab₁.sn = hab.sn + 1 := by
        rw [hsn₁, u64Succ, Nat.mod_eq_of_lt (by omega)]
      obtain ⟨hab', hname', hsn', hrecords'⟩ := ih hname₁ (by omega) hrest
      refine ⟨hab', hname', ?_, hrecords'.trans hrecords₁⟩
      rw [hsn', hsucc, List.length_cons]
      omega

/-! ### The record -/

/-- A record that was written is read back. -/
def RecordsReadBack (X : Externals) : Prop :=
  ∀ name pfx said config bytes, X.json.toVec (Hab.record name pfx said config) = .ok bytes →
    X.json.fromSlice bytes = .ok (Hab.record name pfx said config)

/-- What a record has in it. -/
theorem fromValue_record (name pfx said : String) (config : InceptionConfig) :
    HabState.fromValue (Hab.record name pfx said config) =
      .ok { name, pfx, code := config.code, transferable := config.transferable, signerGen := 0,
            signerCount := config.count, nextGen := 1, nextCount := config.nextCount, keyGen := 2,
            lastSaid := said, sn := 0, backerThreshold := config.backerThreshold,
            backers := config.backers } := by
  have hbackers := readStrings_textArray config.backers
  simp [HabState.fromValue, Hab.record, field, Value.get, Value.asObject, Fields.get, okOr,
    readString, readBool, readUnsigned, hbackers, Value.asStr]

/-- The record of a new identifier is its state. -/
theorem record_of_inceptEvent {name : String} {config : InceptionConfig} {random : Bytes}
    {hab : Hab} {event : Hab.SignedEvent} {habBytes : Bytes}
    (h : Hab.inceptEvent X name config random = .ok (hab, event, habBytes)) :
    X.json.toVec (Hab.record name event.said event.said config) = .ok habBytes ∧
      HabState.fromValue (Hab.record name event.said event.said config) = .ok hab.state ∧
      hab.pfx = event.said ∧ hab.lastSaid = event.said ∧ hab.sn = 0 := by
  obtain ⟨salter, -, hafter⟩ := bind_eq_ok.1 h
  obtain ⟨signers, hsigners, hafter'⟩ := bind_eq_ok.1 hafter
  obtain ⟨nextSigners, hnext, hrest⟩ := bind_eq_ok.1 hafter'
  simp only [bind_eq_ok, pure_eq_ok] at hrest
  obtain ⟨_, -, _, -, event', -, bytes, hbytes, heq⟩ := hrest
  obtain ⟨rfl, hpair⟩ := Prod.mk.inj heq
  obtain ⟨rfl, rfl⟩ := Prod.mk.inj hpair
  refine ⟨mapError_eq_ok.1 hbytes, ?_, rfl, rfl, rfl⟩
  rw [fromValue_record, Hab.state, Hab.deriveSigners_length hsigners,
    Hab.deriveSigners_length hnext]

/-- What an inception registers and stores, under a name that was not registered. -/
theorem incept_ok {name : String} {config : InceptionConfig} {random : Bytes} {h h' : Habery}
    {msg : Bytes} (hincept : incept X disk name config random h = .ok msg h') :
    ∃ (hab : Hab) (event : Hab.SignedEvent) (habBytes : Bytes),
      Hab.inceptEvent X name config random = .ok (hab, event, habBytes) ∧
      h.habs.get name = none ∧ h'.habs = h.habs.put name hab ∧
      h'.store.tables.habs = h.store.tables.habs.put name habBytes ∧
      h'.store.tables.kels = h.store.tables.kels.put (snKey hab.pfx 0) event.said := by
  unfold incept at hincept
  rw [bind_run_of_ok get_run] at hincept
  obtain ⟨⟨⟩, h₁, hensure, hinner⟩ := bind_run_ok.1 hincept
  obtain ⟨hnew, rfl⟩ := lift_run_ok.1 hensure
  rw [ensure_eq_ok] at hnew
  obtain ⟨⟨hab, event⟩, h₂, hstored, hregister⟩ := bind_run_ok.1 hinner
  obtain ⟨store, hhab, rfl⟩ := zoom_run_ok.1 hstored
  obtain ⟨-, rfl⟩ := EStateM.Result.ok.inj hregister
  obtain ⟨habBytes, hevent, htables⟩ := Hab.incept_ok hhab
  refine ⟨hab, event, habBytes, hevent, by simpa using hnew, rfl, ?_, ?_⟩
  · exact congrArg Tables.habs htables
  · exact (congrArg Tables.kels htables).trans Tables.putLogged_kels

/-! ### Resuming -/

variable (X disk) in
/-- A new manager over the store of `h` takes the identifier up where `h` has it: the state is the
same, the log ends with its latest event, and there is no event yet at the next number unless the
store had one to begin with. -/
structure Resumes (start : Store) (h : Habery) (name : String) (salt : Bytes) : Prop where
  resumed : ∃ hab, h.habs.get name = some hab ∧ ∃ resumed h',
    resume X disk name salt (Habery.new h.store) = .ok resumed h' ∧ resumed.state = hab.state ∧
    h.store.tables.kels.get (snKey resumed.pfx resumed.sn) = some resumed.lastSaid ∧
    (start.tables.kels.get (snKey resumed.pfx (u64Succ resumed.sn)) = none →
      h.store.tables.kels.get (snKey resumed.pfx (u64Succ resumed.sn)) = none)

/-- What a new manager takes up is the state of the record. -/
theorem resume_eq (hjson : RecordsReadBack X) {store : Store} {name pfx said : String}
    {config : InceptionConfig} {habBytes salt : Bytes} {state : HabState} {hab : Hab}
    (hdisk : disk store.calls = none) (hget : store.tables.habs.get name = some habBytes)
    (hbytes : X.json.toVec (Hab.record name pfx said config) = .ok habBytes)
    (hstate : HabState.fromValue (Hab.record name pfx said config) = .ok state)
    (hresume : Hab.resume X state salt = .ok hab) :
    ∃ h', resume X disk name salt (Habery.new store) = .ok hab h' := by
  have hread : Store.getHab disk name store =
      .ok (some habBytes) { store with calls := store.calls + 1 } := by
    rw [← hget]
    exact Store.read_ok.2 ⟨hdisk, rfl, rfl⟩
  have honStore : onStore .db (Store.getHab disk name) (Habery.new store) =
      .ok (some habBytes) (Habery.new { store with calls := store.calls + 1 }) :=
    zoom_run_ok.2 ⟨_, hread, rfl⟩
  unfold resume
  rw [bind_run_of_ok honStore, okOr, bind_run_of_ok lift_ok,
    bind_run_of_ok (lift_run_ok.2 ⟨mapError_eq_ok.2 (hjson _ _ _ _ _ hbytes), rfl⟩),
    bind_run_of_ok (lift_run_ok.2 ⟨mapError_eq_ok.2 hstate, rfl⟩), hresume]
  exact ⟨_, rfl⟩

section

variable {name : String} {config : InceptionConfig} {random salt : Bytes} {start : Store}
  {h₀ h : Habery} {msg : Bytes} {calls : List Hab.Call}

/-- The record that a new manager finds is the one of the inception. -/
theorem resume_after_calls (hjson : RecordsReadBack X)
    (hincept : incept X disk name config random (Habery.new start) = .ok msg h₀)
    (hsalt : config.salt = some salt) (hfits : calls.length < u64Bound)
    (hcalls : callAll X disk name calls h₀ = .ok ⟨⟩ h) (hdisk : disk h.store.calls = none) :
    ∃ (incepted hab : Hab) (h' : Habery), h₀.habs.get name = some incepted ∧
      h.habs.get name = some hab ∧ hab.sn = calls.length ∧ incepted.sn = 0 ∧
      resume X disk name salt (Habery.new h.store) = .ok incepted h' ∧
      h₀.store.tables.kels = start.tables.kels.put (snKey incepted.pfx 0) incepted.lastSaid := by
  obtain ⟨incepted, event, habBytes, hevent, -, hregistered, hstored, hkels⟩ := incept_ok hincept
  have hname : h₀.habs.get name = some incepted := by rw [hregistered, Table.get_put_self]
  have hrecord : h₀.store.tables.habs.get name = some habBytes := by
    rw [hstored, Table.get_put_self]
  obtain ⟨hbytes, hstate, -, hlast, hsn⟩ := record_of_inceptEvent hevent
  have hderived := Hab.derived_of_inceptEvent hevent
  rw [hsalt, Option.getD_some] at hderived
  obtain ⟨hab, hhab, hcount, hrecords⟩ := callAll_ok hname (by rw [hsn]; omega) hcalls
  rw [← hrecords] at hrecord
  obtain ⟨h', hresume⟩ :=
    resume_eq hjson hdisk hrecord hbytes hstate (Hab.resume_state hderived)
  rw [hsn, Nat.zero_add] at hcount
  exact ⟨incepted, hab, h', hname, hhab, hcount, hsn, hresume, by rw [hlast, hkels]; rfl⟩

/-- Where the number is that of the record, nothing was done. -/
theorem calls_eq_nil_of_resumes (hjson : RecordsReadBack X)
    (hincept : incept X disk name config random (Habery.new start) = .ok msg h₀)
    (hsalt : config.salt = some salt) (hfits : calls.length < u64Bound)
    (hcalls : callAll X disk name calls h₀ = .ok ⟨⟩ h) (hdisk : disk h.store.calls = none)
    (hresumes : Resumes X disk start h name salt) : calls = [] := by
  obtain ⟨incepted, hab, h', -, hhab, hcount, hsn, hresume, -⟩ :=
    resume_after_calls hjson hincept hsalt hfits hcalls hdisk
  obtain ⟨hab', hhab', resumed, h'', hresume', hstate, -⟩ := hresumes.resumed
  obtain rfl := Option.some_inj.1 (hhab.symm.trans hhab')
  obtain ⟨rfl, -⟩ := EStateM.Result.ok.inj (hresume.symm.trans hresume')
  have hsame : incepted.sn = hab.sn := congrArg HabState.sn hstate
  rw [hsn, hcount] at hsame
  exact List.eq_nil_of_length_eq_zero hsame.symm

/-- **An identifier is resumed where it stopped when nothing was done after its inception, and only
then.** -/
theorem resumes_after_calls (hjson : RecordsReadBack X)
    (hincept : incept X disk name config random (Habery.new start) = .ok msg h₀)
    (hsalt : config.salt = some salt) (hcalls : callAll X disk name calls h₀ = .ok ⟨⟩ h)
    (hdisk : disk h.store.calls = none) :
    (calls = [] → Resumes X disk start h name salt) ∧
      (calls.length < u64Bound → Resumes X disk start h name salt → calls = []) := by
  constructor
  · rintro rfl
    obtain ⟨incepted, hab, h', hname, hhab, -, hsn, hresume, hkels⟩ :=
      resume_after_calls hjson hincept hsalt (by decide) hcalls hdisk
    obtain ⟨-, rfl⟩ := EStateM.Result.ok.inj hcalls
    obtain rfl := Option.some_inj.1 (hname.symm.trans hhab)
    refine ⟨incepted, hname, incepted, h', hresume, rfl, ?_, ?_⟩
    · rw [hkels, hsn]
      exact Table.get_put_self _ _ _
    · intro hnew
      rw [hsn] at hnew ⊢
      have hne : snKey incepted.pfx (u64Succ 0) ≠ snKey incepted.pfx 0 := by
        intro heq
        have := (snKey_inj (by decide) (by decide) heq).2
        cases this
      rw [hkels, Table.get_put_of_ne _ hne]
      exact hnew
  · intro hfits hresumes
    exact calls_eq_nil_of_resumes hjson hincept hsalt hfits hcalls hdisk hresumes

end

/-! ### A record that is out of date -/

theorem recordsReadBack_toy : RecordsReadBack Toy.lib :=
  fun _ _ _ _ _ h => Toy.fromSlice_toVec h

/-- A new identifier, and what it has done since. -/
theorem exists_habery_run (calls : List Hab.Call)
    (h : okAnd (fun _ _ => true) ((incept Toy.lib .sound "alice" { salt := some (Toy.salt 7) } [] >>=
      fun _ => callAll Toy.lib .sound "alice" calls) (Habery.new .empty)) = true) :
    ∃ (msg : Bytes) (h₀ h : Habery),
      incept Toy.lib .sound "alice" { salt := some (Toy.salt 7) } [] (Habery.new .empty) =
        .ok msg h₀ ∧
      callAll Toy.lib .sound "alice" calls h₀ = .ok ⟨⟩ h := by
  obtain ⟨u, h, hrun, -⟩ := exists_run_of_okAnd h
  obtain ⟨msg, h₀, hincept, hcalls⟩ := bind_run_ok.1 hrun
  exact ⟨msg, h₀, h, hincept, hcalls⟩

theorem resumes_after_calls_toy :
    ∃ (msg : Bytes) (h₀ : Habery),
      incept Toy.lib .sound "alice" { salt := some (Toy.salt 7) } [] (Habery.new .empty) =
        .ok msg h₀ ∧
      Resumes Toy.lib .sound .empty h₀ "alice" (Toy.salt 7) := by
  obtain ⟨msg, h₀, h, hincept, hcalls⟩ := exists_habery_run [] (by decide +kernel)
  obtain ⟨-, rfl⟩ := EStateM.Result.ok.inj hcalls
  exact ⟨msg, h₀, hincept,
    (resumes_after_calls recordsReadBack_toy hincept rfl hcalls rfl).1 rfl⟩

/-- An identifier that is resumed at its inception, after an interaction. -/
theorem stale_record :
    ∃ (msg : Bytes) (h₀ h : Habery),
      incept Toy.lib .sound "alice" { salt := some (Toy.salt 7) } [] (Habery.new .empty) =
        .ok msg h₀ ∧
      callAll Toy.lib .sound "alice" [.interact []] h₀ = .ok ⟨⟩ h ∧
      ¬ Resumes Toy.lib .sound .empty h "alice" (Toy.salt 7) := by
  obtain ⟨msg, h₀, h, hincept, hcalls⟩ := exists_habery_run [.interact []] (by decide +kernel)
  refine ⟨msg, h₀, h, hincept, hcalls, ?_⟩
  intro hresumes
  have hnil :=
    calls_eq_nil_of_resumes recordsReadBack_toy hincept rfl (by decide) hcalls rfl hresumes
  cases hnil

end Habery

end Keri
