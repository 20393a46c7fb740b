/-
**Verified bodies in the store.**

Every entry of an event log names an event by its SAID, and the event table should have the body
that was verified under that SAID.  The arms of `processParsed` that verify keep this, because a
verified SAID determines the event and an event is accepted once.  The arm for other ilks stores a
body under whatever SAID it claims, and keeps it only as long as that is not the SAID of a logged
event.

* `Keri.stepDirect` — a message processed, with whatever outcome;
* `Keri.WritesKel` — the step verifies an event and writes its log entry;
* `Keri.Harmless` — no body of another ilk is stored over that of a logged event;
* `Keri.AcceptedBy.fresh` — **an accepted event has a SAID that no accepted event had**;
* `Keri.History.step` — what one step keeps;
* `Keri.stored_bodies_verified` — **over a harmless run, every log entry's event is the body that
  was verified when the entry was written**.
-/

import Keri.Direct
import Keri.SaidBinding

set_option relaxedAutoImplicit false
set_option autoImplicit false

namespace Keri

open Outcome Machine

variable (X : Externals) (disk : Disk)

/-! ### Runs -/

/-- The receiver after a message, whatever came of it. -/
def stepDirect (n : Node) (data : Bytes) : Node := stateAfter (processMessage X disk data n)

/-- A log entry that is written, and the body that was verified for it. -/
structure KelWrite where
  pfx : String
  sn : ℕ
  said : String
  raw : Bytes

/-- The message is an event that is verified and logged. -/
def WritesKel (n : Node) (data : Bytes) (w : KelWrite) : Prop :=
  ∃ parsed size r sigs k, parseNext X data = .ok (parsed, size) ∧ Logs X disk n parsed r sigs k ∧
    w = { pfx := r.pfx, sn := r.sn, said := r.said, raw := parsed.serder.raw }

/-- The message writes the log entry at `key`. -/
def WritesAt (key : String) (n : Node) (data : Bytes) : Prop :=
  ∃ w, WritesKel X disk n data w ∧ snKey w.pfx w.sn = key

/-- The message does not put a body of another ilk in the place of a logged one. -/
def Harmless (n : Node) (data : Bytes) : Prop :=
  ∀ parsed size r, parseNext X data = .ok (parsed, size) → StoresBody X disk n parsed r →
    ∀ key, n.store.tables.kels.get key = some r.said →
      n.store.tables.evts.get r.said = some parsed.serder.raw

variable {X disk}

theorem stepDirect_of_parse {n : Node} {data : Bytes} {parsed : ParsedMessage} {size : ℕ}
    (h : parseNext X data = .ok (parsed, size)) :
    stepDirect X disk n data = stateAfter (processParsed X disk parsed n) := by
  rw [stepDirect, processMessage_of_parse h]

theorem stepDirect_of_error {n : Node} {data : Bytes} {e : CoreError}
    (h : parseNext X data = .error e) : stepDirect X disk n data = n := by
  have hread : lift ((parseNext X data).mapError KeriError.core) n =
      EStateM.Result.error (.core e) n :=
    lift_run_error.2 ⟨mapError_eq_error.2 ⟨e, h, rfl⟩, rfl⟩
  unfold stepDirect processMessage
  rw [bind_run_of_error hread]
  rfl

/-- A step that logs nothing: the logs and verifiers are left alone. -/
theorem stepDirect_unlogged {n : Node} {data : Bytes} (h : ∀ w, ¬ WritesKel X disk n data w) :
    stepDirect X disk n data = n ∨ ∃ parsed size, parseNext X data = .ok (parsed, size) ∧
      Unlogged X disk parsed n (stepDirect X disk n data) := by
  cases hparse : parseNext X data with
  | error e => exact Or.inl (stepDirect_of_error hparse)
  | ok p =>
      refine Or.inr ⟨p.1, p.2, rfl, ?_⟩
      rw [stepDirect_of_parse hparse]
      exact processParsed_unlogged fun r sigs k hlogs =>
        h _ ⟨p.1, p.2, r, sigs, k, hparse, hlogs, rfl⟩

/-! ### An event is accepted once -/

/-- An accepted event. -/
structure Entry where
  pfx : String
  said : String
  sad : Value
  raw : Bytes

/-- The event is not an inception, and names `prior` as the event before it. -/
def Entry.Follows (e : Entry) (prior : String) : Prop :=
  e.sad.get "t" ≠ some (.string "icp") ∧ e.sad.get "p" = some (.string prior)

variable (X) in
/-- The SAID of an entry verifies, as JSON, and its fields are those of its body. -/
structure Entry.Verified (e : Entry) : Prop where
  said_ok : verifySaid X e.sad "d" "E" .json = .ok ()
  said_eq : e.sad.get "d" = some (.string e.said)
  pfx_eq : e.sad.get "i" = some (.string e.pfx)
  primitive : IsPrimitive X e.pfx

/-- Equal SAIDs, equal values. -/
theorem Entry.Verified.sad_eq (hX : SaidLaws X) {e e' : Entry} (h : e.Verified X)
    (h' : e'.Verified X) (hsaid : e.said = e'.said) : e.sad = e'.sad :=
  (sad_eq_of_said_eq hX h.said_ok h'.said_ok h.said_eq (hsaid ▸ h'.said_eq) h.pfx_eq h'.pfx_eq
    h.primitive h'.primitive).2

/-- The entry of an accepted message. -/
def entryOf (parsed : ParsedMessage) (r : ProcessResult) : Entry :=
  { pfx := r.pfx, said := r.said, sad := parsed.serder.sad, raw := parsed.serder.raw }

/-- What an accepted event has passed, and the verifier it leaves. -/
theorem AcceptedBy.entry {before : Option Kever} {parsed : ParsedMessage} {r : ProcessResult}
    {sigs : Option Bytes} {k : Kever} (h : AcceptedBy X before parsed r sigs k)
    (hbefore : ∀ k₀, before = some k₀ → k₀.state.pfx = r.pfx ∧ IsPrimitive X r.pfx) :
    (entryOf parsed r).Verified X ∧ k.state.pfx = r.pfx ∧ k.state.lastEventDigest = r.said ∧
      ((before = none ∧ parsed.serder.sad.get "t" = some (.string "icp")) ∨
        ∃ k₀, before = some k₀ ∧ (entryOf parsed r).Follows k₀.state.lastEventDigest) := by
  obtain ⟨hpfx, -, hsaid, -⟩ := Serder.header_eq_ok.1 h.header
  have hi : parsed.serder.sad.get "i" = some (.string r.pfx) := Serder.textField_eq_ok.1 hpfx
  have hd : parsed.serder.sad.get "d" = some (.string r.said) := Serder.textField_eq_ok.1 hsaid
  cases h with
  | inception _ _ _ hnone hverify =>
      obtain ⟨verfers, -, hnew, -⟩ := verifyInception_eq_ok.1 hverify
      obtain ⟨hilk, hok, hincept⟩ := Kever.newFromParts_eq_ok.1 hnew
      obtain ⟨hi', hd', hprim⟩ := Kever.incept_fields hincept
      rw [hi, Option.some_inj, Value.string.injEq] at hi'
      rw [hd, Option.some_inj, Value.string.injEq] at hd'
      rw [← hi'] at hprim
      exact ⟨⟨hok, hd, hi, hprim⟩, hi'.symm, hd'.symm, Or.inl ⟨hnone, hilk⟩⟩
  | @update _ _ k₀ t _ _ _ hsome hverify =>
      obtain ⟨hverify, -⟩ := verifyNext_eq_ok.1 hverify
      obtain ⟨-, hok, ilk, _, hilk, -, -, hnext⟩ := Kever.verifyUpdateOwned_eq_ok.1 hverify
      obtain ⟨hpfx', -, hp, hd', -⟩ := Kever.nextState_fields hnext
      obtain ⟨hk₀, hprim⟩ := hbefore k₀ hsome
      rw [hd, Option.some_inj, Value.string.injEq] at hd'
      refine ⟨⟨hok, hd, hi, hprim⟩, hpfx'.trans hk₀, hd'.symm, Or.inr ⟨k₀, hsome, ?_, hp⟩⟩
      -- the two ilks that an update accepts are not `icp`
      intro hicp
      change parsed.serder.sad.get "t" = _ at hicp
      rw [hilk, Option.some_inj, Value.string.injEq] at hicp
      rcases Kever.nextState_eq_ok.1 hnext with hrot | hixn
      · exact absurd (hrot.1.symm.trans hicp) (by decide)
      · exact absurd (hixn.1.symm.trans hicp) (by decide)

/-! ### The history of a run -/

variable (X disk) in
/-- The receiver at the end of a run from an empty store. -/
def runDirect (msgs : List Bytes) : Node := run (stepDirect X disk) Node.empty msgs

variable (X disk) in
/-- The entry at `key` was last written for the event `said` with the body `raw`, by a step that
verified that body. -/
def LastWritten (msgs : List Bytes) (key said : String) (raw : Bytes) : Prop :=
  ∃ pre data w, Last (stepDirect X disk) (WritesAt X disk key) Node.empty msgs pre data ∧
    WritesKel X disk (runDirect X disk pre) data w ∧ snKey w.pfx w.sn = key ∧ w.said = said ∧
    w.raw = raw

variable (X disk) in
/-- What ties the receiver at the end of a run to the events it has accepted. -/
structure History (msgs : List Bytes) (hist : List Entry) : Prop where
  verified : ∀ e ∈ hist, e.Verified X
  known : ∀ e ∈ hist, ((runDirect X disk msgs).kevers.get e.pfx).isSome
  /-- A verifier's last event is one of them, and none of them follows it yet. -/
  last : ∀ p k, (runDirect X disk msgs).kevers.get p = some k → k.state.pfx = p ∧
    (∃ e ∈ hist, e.pfx = p ∧ e.said = k.state.lastEventDigest) ∧
    ∀ e ∈ hist, e.pfx = p → ¬ e.Follows k.state.lastEventDigest
  prior : ∀ e ∈ hist, ∀ p, e.Follows p → ∃ e' ∈ hist, e'.said = p
  bodies : ∀ key said, (runDirect X disk msgs).store.tables.kels.get key = some said →
    ∃ e ∈ hist, e.said = said ∧
      (runDirect X disk msgs).store.tables.evts.get said = some e.raw ∧
      LastWritten X disk msgs key said e.raw

theorem runDirect_concat (msgs : List Bytes) (data : Bytes) :
    runDirect X disk (msgs ++ [data]) = stepDirect X disk (runDirect X disk msgs) data :=
  run_concat _ _ _

theorem history_nil : History X disk [] [] where
  verified := by simp
  known := by simp
  last := by
    intro p k hk
    cases hk
  prior := by simp
  bodies := by
    intro key said hkey
    cases hkey

variable {msgs : List Bytes} {hist : List Entry}

/-- A verifier is kept under its identifier, which is a primitive. -/
theorem History.pfx_known (hH : History X disk msgs hist) {p : String} (k : Kever)
    (hk : (runDirect X disk msgs).kevers.get p = some k) :
    k.state.pfx = p ∧ IsPrimitive X p := by
  obtain ⟨hpfx, ⟨e, he, hepfx, -⟩, -⟩ := hH.last p k hk
  have hprim := (hH.verified e he).primitive
  rw [hepfx] at hprim
  exact ⟨hpfx, hprim⟩

/-- **An accepted event has a SAID that no accepted event had.**  The SAID determines the event; an
inception is of an identifier that has none, and a later event follows the last event of its
identifier, which none of them does. -/
theorem AcceptedBy.fresh (hX : SaidLaws X) (hH : History X disk msgs hist)
    {parsed : ParsedMessage} {r : ProcessResult} {sigs : Option Bytes} {k : Kever}
    (h : AcceptedBy X ((runDirect X disk msgs).kevers.get r.pfx) parsed r sigs k) :
    ∀ e ∈ hist, e.said ≠ r.said := by
  intro e he hsaid
  obtain ⟨hverified, -, -, hkind⟩ := h.entry hH.pfx_known
  have hsad : e.sad = parsed.serder.sad := (hH.verified e he).sad_eq hX hverified hsaid
  have hpfx : e.pfx = r.pfx := by
    have hi := (hH.verified e he).pfx_eq
    have hi' := hverified.pfx_eq
    rw [hsad] at hi
    exact Value.string.inj (Option.some_inj.1 (hi.symm.trans hi'))
  rcases hkind with ⟨hnone, -⟩ | ⟨k₀, hk₀, hfollows⟩
  · have hknown := hH.known e he
    rw [hpfx, hnone] at hknown
    cases hknown
  · obtain ⟨-, -, hlast⟩ := hH.last _ _ hk₀
    refine hlast e he hpfx ?_
    unfold Entry.Follows at hfollows ⊢
    rw [hsad]
    exact hfollows

/-- The last write of an entry, after a step that does not write it. -/
theorem LastWritten.concat {key said : String} {raw data : Bytes}
    (h : LastWritten X disk msgs key said raw)
    (hdata : ¬ WritesAt X disk key (runDirect X disk msgs) data) :
    LastWritten X disk (msgs ++ [data]) key said raw := by
  obtain ⟨pre, data', w, hlast, hw⟩ := h
  exact ⟨pre, data', w, hlast.concat hdata, hw⟩

/-- A step that logs nothing keeps the history. -/
theorem History.step_unlogged (hH : History X disk msgs hist) {data : Bytes}
    (hno : ∀ w, ¬ WritesKel X disk (runDirect X disk msgs) data w)
    (hharmless : Harmless X disk (runDirect X disk msgs) data) :
    History X disk (msgs ++ [data]) hist := by
  have hsteady : ∀ key, ¬ WritesAt X disk key (runDirect X disk msgs) data := by
    intro key hkey
    obtain ⟨w, hw, -⟩ := hkey
    exact hno w hw
  have hframe : (runDirect X disk (msgs ++ [data])).kevers = (runDirect X disk msgs).kevers ∧
      (runDirect X disk (msgs ++ [data])).store.tables.kels =
        (runDirect X disk msgs).store.tables.kels ∧
      ∀ key said raw, (runDirect X disk msgs).store.tables.kels.get key = some said →
        (runDirect X disk msgs).store.tables.evts.get said = some raw →
        (runDirect X disk (msgs ++ [data])).store.tables.evts.get said = some raw := by
    rw [runDirect_concat]
    rcases stepDirect_unlogged hno with hsame | ⟨parsed, size, hparse, hunlogged⟩
    · rw [hsame]
      exact ⟨rfl, rfl, fun _ _ _ _ hraw => hraw⟩
    · refine ⟨hunlogged.kevers, hunlogged.kels, fun key said raw hkey hraw => ?_⟩
      rcases hunlogged.evts with hevts | ⟨r, hstores, hevts⟩
      · rw [hevts]
        exact hraw
      · rw [hevts, Table.get_put]
        split
        · rename_i hsaid
          rw [hsaid] at hkey hraw
          rw [hharmless parsed size r hparse hstores key hkey] at hraw
          exact hraw
        · exact hraw
  obtain ⟨hkevers, hkels, hevts⟩ := hframe
  refine ⟨hH.verified, ?_, ?_, hH.prior, ?_⟩
  · rw [hkevers]
    exact hH.known
  · rw [hkevers]
    exact hH.last
  · intro key said hkey
    rw [hkels] at hkey
    obtain ⟨e, he, hsaid, hraw, hlast⟩ := hH.bodies key said hkey
    exact ⟨e, he, hsaid, hevts key said e.raw hkey hraw, hlast.concat (hsteady key)⟩

section

variable {data : Bytes} {parsed : ParsedMessage} {size : ℕ} {r : ProcessResult}
  {sigs : Option Bytes} {k : Kever}

theorem runDirect_logged (hparse : parseNext X data = .ok (parsed, size))
    (hlogs : Logs X disk (runDirect X disk msgs) parsed r sigs k) :
    runDirect X disk (msgs ++ [data]) =
      (runDirect X disk msgs).logged r parsed.serder.raw sigs k := by
  rw [runDirect_concat, stepDirect_of_parse hparse, processParsed_logs hlogs, stateAfter_ok]

/-- What an accepted event follows has been accepted. -/
theorem History.follows_prior (hH : History X disk msgs hist)
    (h : AcceptedBy X ((runDirect X disk msgs).kevers.get r.pfx) parsed r sigs k) {p : String}
    (hp : (entryOf parsed r).Follows p) : ∃ e ∈ hist, e.said = p := by
  obtain ⟨-, -, -, ⟨-, hicp⟩ | ⟨k₀, hk₀, hfollows⟩⟩ := h.entry hH.pfx_known
  · exact absurd hicp hp.1
  · obtain ⟨-, ⟨e, he, -, hsaid⟩, -⟩ := hH.last _ _ hk₀
    have heq := hfollows.2.symm.trans hp.2
    rw [Option.some_inj, Value.string.injEq] at heq
    exact ⟨e, he, hsaid.trans heq⟩

/-- No event follows one that has just been accepted. -/
theorem History.not_follows_fresh (hX : SaidLaws X) (hH : History X disk msgs hist)
    (h : AcceptedBy X ((runDirect X disk msgs).kevers.get r.pfx) parsed r sigs k) :
    ∀ e ∈ entryOf parsed r :: hist, ¬ e.Follows r.said := by
  intro e he hfollows
  have hprior : ∃ e' ∈ hist, e'.said = r.said := by
    rcases List.mem_cons.1 he with rfl | he
    · exact hH.follows_prior h hfollows
    · exact hH.prior e he _ hfollows
  obtain ⟨e', he', hsaid⟩ := hprior
  exact h.fresh hX hH e' he' hsaid

/-- The body of the event that is logged is in the table, and those of the others still are. -/
theorem History.bodies_logged (hX : SaidLaws X) (hH : History X disk msgs hist)
    (hparse : parseNext X data = .ok (parsed, size))
    (hlogs : Logs X disk (runDirect X disk msgs) parsed r sigs k) {key said : String}
    (hkey : (runDirect X disk (msgs ++ [data])).store.tables.kels.get key = some said) :
    ∃ e ∈ entryOf parsed r :: hist, e.said = said ∧
      (runDirect X disk (msgs ++ [data])).store.tables.evts.get said = some e.raw ∧
      LastWritten X disk (msgs ++ [data]) key said e.raw := by
  have hwrites : WritesKel X disk (runDirect X disk msgs) data
      { pfx := r.pfx, sn := r.sn, said := r.said, raw := parsed.serder.raw } :=
    ⟨parsed, size, r, sigs, k, hparse, hlogs, rfl⟩
  rw [runDirect_logged hparse hlogs] at hkey ⊢
  simp only [Node.logged, Tables.putLogged_kels, Tables.putLogged_evts, Table.get_put] at hkey ⊢
  split at hkey
  · rename_i heq
    obtain rfl := Option.some_inj.1 hkey
    refine ⟨_, List.mem_cons_self, rfl, if_pos rfl, msgs, data, _, ?_, hwrites, heq.symm, rfl, rfl⟩
    exact last_concat_self ⟨_, hwrites, heq.symm⟩
  · rename_i hne
    obtain ⟨e, he, hsaid, hraw, hlast⟩ := hH.bodies key said hkey
    have hother : said ≠ r.said := fun h => hlogs.1.fresh hX hH e he (hsaid.trans h)
    refine ⟨e, List.mem_cons_of_mem _ he, hsaid, ?_, hlast.concat ?_⟩
    · rw [if_neg hother]
      exact hraw
    · intro hat
      obtain ⟨w, ⟨parsed', size', r', sigs', k', hparse', hlogs', rfl⟩, hw⟩ := hat
      obtain ⟨rfl, -⟩ := Prod.mk.inj (Except.ok.inj (hparse.symm.trans hparse'))
      obtain rfl := Except.ok.inj (hlogs.1.header.symm.trans hlogs'.1.header)
      exact hne hw.symm

/-- A step that logs an event adds it to the history. -/
theorem History.step_logged (hX : SaidLaws X) (hH : History X disk msgs hist)
    (hparse : parseNext X data = .ok (parsed, size))
    (hlogs : Logs X disk (runDirect X disk msgs) parsed r sigs k) :
    History X disk (msgs ++ [data]) (entryOf parsed r :: hist) := by
  obtain ⟨hverified, hkpfx, hkdigest, -⟩ := hlogs.1.entry hH.pfx_known
  have hkevers : (runDirect X disk (msgs ++ [data])).kevers =
      (runDirect X disk msgs).kevers.put r.pfx k := by
    rw [runDirect_logged hparse hlogs]
    rfl
  refine ⟨?_, ?_, ?_, ?_, fun key said => hH.bodies_logged hX hparse hlogs⟩
  · intro e he
    rcases List.mem_cons.1 he with rfl | he
    · exact hverified
    · exact hH.verified e he
  · intro e he
    rw [hkevers]
    rcases List.mem_cons.1 he with rfl | he
    · change (((runDirect X disk msgs).kevers.put r.pfx k).get r.pfx).isSome = true
      rw [Table.get_put_self]
      rfl
    · exact Table.get_put_isSome (hH.known e he) r.pfx k
  · intro p k' hk'
    rw [hkevers, Table.get_put] at hk'
    split at hk'
    · rename_i hp
      obtain rfl := Option.some_inj.1 hk'
      refine ⟨hkpfx.trans hp.symm, ⟨_, List.mem_cons_self, hp.symm, hkdigest.symm⟩, ?_⟩
      intro e he _
      rw [hkdigest]
      exact hH.not_follows_fresh hX hlogs.1 e he
    · rename_i hp
      obtain ⟨hpfx, ⟨e, he, hepfx, hsaid⟩, hlast⟩ := hH.last p k' hk'
      refine ⟨hpfx, ⟨e, List.mem_cons_of_mem _ he, hepfx, hsaid⟩, ?_⟩
      intro e' he' hpfx'
      rcases List.mem_cons.1 he' with rfl | he'
      · exact absurd hpfx'.symm hp
      · exact hlast e' he' hpfx'
  · intro e he p hfollows
    have hprior : ∃ e' ∈ hist, e'.said = p := by
      rcases List.mem_cons.1 he with rfl | he
      · exact hH.follows_prior hlogs.1 hfollows
      · exact hH.prior e he p hfollows
    obtain ⟨e', he', hsaid⟩ := hprior
    exact ⟨e', List.mem_cons_of_mem _ he', hsaid⟩

end

/-- **What one step keeps.** -/
theorem History.step (hX : SaidLaws X) (hH : History X disk msgs hist) {data : Bytes}
    (hharmless : Harmless X disk (runDirect X disk msgs) data) :
    ∃ hist', History X disk (msgs ++ [data]) hist' := by
  by_cases hno : ∀ w, ¬ WritesKel X disk (runDirect X disk msgs) data w
  · exact ⟨hist, hH.step_unlogged hno hharmless⟩
  · obtain ⟨w, hw⟩ := not_forall.1 hno
    obtain ⟨parsed, size, r, sigs, k, hparse, hlogs, -⟩ := not_not.1 hw
    exact ⟨_, hH.step_logged hX hparse hlogs⟩

theorem exists_history (hX : SaidLaws X) (msgs : List Bytes)
    (h : Along (stepDirect X disk) (Harmless X disk) Node.empty msgs) :
    ∃ hist, History X disk msgs hist := by
  induction msgs using List.reverseRecOn with
  | nil => exact ⟨[], history_nil⟩
  | append_singleton msgs data ih =>
      obtain ⟨hmsgs, hdata, -⟩ := along_append.1 h
      obtain ⟨hist, hH⟩ := ih hmsgs
      exact hH.step hX hdata

/-- **Verified bodies are never replaced**, over a run from an empty store in which no body of
another ilk is put in the place of a logged one: for every entry in the log of an identifier, the
event table has the body that was verified by the step that wrote the entry last. -/
theorem stored_bodies_verified (hX : SaidLaws X) {msgs : List Bytes}
    (h : Along (stepDirect X disk) (Harmless X disk) Node.empty msgs) {pfx said : String} {sn : ℕ}
    (hkel : (sn, said) ∈ (runDirect X disk msgs).store.tables.kel pfx) :
    ∃ key raw, (pfx ++ sep).toList <+: key.toList ∧ splitSn key = some sn ∧
      (runDirect X disk msgs).store.tables.evts.get said = some raw ∧
      LastWritten X disk msgs key said raw := by
  obtain ⟨hist, hH⟩ := exists_history hX msgs h
  obtain ⟨key, hkey, hprefix, hsn⟩ := Tables.mem_kel hkel
  obtain ⟨e, -, -, hraw, hlast⟩ := hH.bodies key said hkey
  exact ⟨key, e.raw, hprefix, hsn, hraw, hlast⟩

/-! ### An instance -/

/-- The toy libraries with a digest that loses nothing and is short on an inception. -/
abbrev toyKnown : Externals := Toy.externals (Toy.knownDigest [Toy.completedBytes toyFields])

/-- The inception, signed. -/
def toyInception : Bytes :=
  Toy.print (Toy.complete (Toy.knownDigest [Toy.completedBytes toyFields]) toyFields)

def toySignedInception : Bytes := Toy.signedBytes toyInception 1

/-- The SAID of the inception. -/
def toySaid : String :=
  Toy.saidOf (Toy.serderOf (Toy.knownDigest [Toy.completedBytes toyFields]) toyInception)

/-- A body of no known ilk that claims this SAID. -/
def toyForged : Bytes :=
  Toy.versioned [("v", .string ""), ("t", .string "note"), ("d", .string toySaid),
    ("i", .string "anyone"), ("s", .string "0")]

theorem saidLaws_toyKnown : SaidLaws toyKnown := by
  refine saidLaws_toy (Toy.knownDigest_injective ?_)
  rw [List.length_singleton]
  omega

/-- A body of no known ilk with a SAID of its own. -/
def toyNote : Bytes :=
  Toy.versioned [("v", .string ""), ("t", .string "note"), ("d", .string "note"),
    ("i", .string "anyone"), ("s", .string "0")]

/-- A message of a known ilk is harmless, and so is one whose SAID no log has. -/
theorem harmless_of_header {n : Node} {data : Bytes}
    (h : (parseNext X data).toOption.any (fun m => m.1.serder.header.toOption.any fun r =>
      decide (isInception r.ilk ∨ isUpdate r.ilk ∨ r.ilk = "rct" ∨
        ∀ e ∈ n.store.tables.kels.entries, e.2 ≠ r.said)) = true) :
    Harmless X disk n data := by
  rintro parsed size r hparse ⟨hheader, -, hunknown, -⟩ key hkey
  obtain ⟨m, hm, h⟩ := exists_ok_of_any h
  obtain rfl := Except.ok.inj (hm.symm.trans hparse)
  obtain ⟨r', hr', h⟩ := exists_ok_of_any h
  obtain rfl := Except.ok.inj (hr'.symm.trans hheader)
  rcases of_decide_eq_true h with hicp | hup | hrct | hnone
  · exact absurd (Or.inl hicp) hunknown
  · exact absurd (Or.inr (Or.inl hup)) hunknown
  · exact absurd (Or.inr (Or.inr hrct)) hunknown
  · exact absurd rfl (hnone _ (Table.mem_entries.2 hkey))

/-- The inception, the note and the inception again: neither the note nor the replay puts a body in
the place of the inception's. -/
theorem toy_harmless :
    Along (stepDirect toyKnown Disk.sound) (Harmless toyKnown Disk.sound) Node.empty
      [toySignedInception, toyNote, toySignedInception] := by
  refine ⟨?_, ?_, ?_, trivial⟩ <;> exact harmless_of_header (by decide +kernel)

theorem stored_bodies_verified_toy :
    (0, toySaid) ∈ (runDirect toyKnown Disk.sound
      [toySignedInception, toyNote, toySignedInception]).store.tables.kel (Toy.keyText 1) ∧
    (runDirect toyKnown Disk.sound
      [toySignedInception, toyNote, toySignedInception]).store.tables.evts.get "note" =
        some toyNote ∧
    ∃ key raw, (Toy.keyText 1 ++ sep).toList <+: key.toList ∧ splitSn key = some 0 ∧
      (runDirect toyKnown Disk.sound
        [toySignedInception, toyNote, toySignedInception]).store.tables.evts.get toySaid =
          some raw ∧
      LastWritten toyKnown Disk.sound [toySignedInception, toyNote, toySignedInception] key toySaid
        raw := by
  have hstate : (0, toySaid) ∈ (runDirect toyKnown Disk.sound
        [toySignedInception, toyNote, toySignedInception]).store.tables.kel (Toy.keyText 1) ∧
      (runDirect toyKnown Disk.sound
        [toySignedInception, toyNote, toySignedInception]).store.tables.evts.get "note" =
          some toyNote := by
    decide +kernel
  exact ⟨hstate.1, hstate.2, stored_bodies_verified saidLaws_toyKnown toy_harmless hstate.1⟩

/-- A body of another ilk replaces that of a logged event. -/
theorem verified_body_replaced :
    ¬ ∀ (X : Externals) (disk : Disk) (msgs : List Bytes) (pfx said : String) (sn : ℕ),
      SaidLaws X → (sn, said) ∈ (runDirect X disk msgs).store.tables.kel pfx →
      ∃ key raw, (runDirect X disk msgs).store.tables.evts.get said = some raw ∧
        LastWritten X disk msgs key said raw := by
  intro hclaim
  have hstate : (0, toySaid) ∈ (runDirect toyKnown Disk.sound
        [toySignedInception, toyForged]).store.tables.kel (Toy.keyText 1) ∧
      (runDirect toyKnown Disk.sound
        [toySignedInception, toyForged]).store.tables.evts.get toySaid = some toyForged := by
    decide +kernel
  obtain ⟨⟨parsed₁, _⟩, hp₁, h₁⟩ := exists_ok_of_any (x := parseNext toyKnown toySignedInception)
    (p := fun p => decide (p.1.serder.raw ≠ toyForged)) (by decide +kernel)
  obtain ⟨⟨parsed₂, _⟩, hp₂, h₂⟩ := exists_ok_of_any (x := parseNext toyKnown toyForged)
    (p := fun p => p.1.serder.header.toOption.any fun r =>
      decide (¬ isInception r.ilk ∧ ¬ isUpdate r.ilk)) (by decide +kernel)
  obtain ⟨key, raw, hraw, pre, data, w, ⟨post, hmsgs, -⟩, hw, -, -, hwraw⟩ :=
    hclaim _ _ _ _ _ _ saidLaws_toyKnown hstate.1
  rw [hstate.2, Option.some_inj] at hraw
  obtain ⟨parsed, size, r, sigs, k, hparse, hlogs, rfl⟩ := hw
  have hdata : data = toySignedInception ∨ data = toyForged := by
    have hmem : data ∈ [toySignedInception, toyForged] := by
      rw [hmsgs]
      exact List.mem_append_right _ List.mem_cons_self
    simpa using hmem
  rcases hdata with hdata | hdata
  · rw [hdata, hp₁] at hparse
    obtain ⟨rfl, -⟩ := Prod.mk.inj (Except.ok.inj hparse)
    exact of_decide_eq_true h₁ (hwraw.trans hraw.symm)
  · rw [hdata, hp₂] at hparse
    obtain ⟨rfl, -⟩ := Prod.mk.inj (Except.ok.inj hparse)
    obtain ⟨r', hr', hilk⟩ := exists_ok_of_any h₂
    obtain rfl := Except.ok.inj (hr'.symm.trans hlogs.1.header)
    obtain ⟨hicp, hup⟩ := of_decide_eq_true hilk
    cases hlogs.1 with
    | inception _ _ h => exact hicp h
    | update _ _ h => exact hup h

end Keri
