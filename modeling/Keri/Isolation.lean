/-
**What a message leaves alone.**

A message that is refused leaves nothing behind: every check comes before the one store call of its
arm, and the verifier is replaced after that call.  A message that is processed reads and writes the
verifier, the log and the first-seen record of its own identifier, so messages of two identifiers
can be processed in either order.

* `Keri.Traceless` — the verifiers and all tables are as they were;
* `Keri.rejected_leaves_no_trace` — **an error leaves no trace**;
* `Keri.react` — what comes of a message, given nothing but the verifier of its identifier;
* `Keri.Node.Agrees` — what the receiver keeps of identifiers: verifiers, logs and first-seen
  records;
* `Keri.processParsed_react` — **a message does to the receiver what it does to its identifier**;
* `Keri.identifiers_independent` — **messages of two identifiers commute**, and neither changes
  anything of another identifier.
-/

import Keri.InStep

set_option relaxedAutoImplicit false
set_option autoImplicit false

namespace Keri

open Outcome Machine

variable {X : Externals} {disk : Disk} {n n' : Node}

/-! ### A refused message -/

/-- The verifiers and all tables are as they were. -/
structure Traceless (n n' : Node) : Prop where
  kevers : n'.kevers = n.kevers
  tables : n'.store.tables = n.store.tables

theorem Traceless.refl (n : Node) : Traceless n n := ⟨rfl, rfl⟩

/-- A write that fails changes nothing. -/
theorem traceless_of_write_error {f : Tables → Tables} {e : KeriError}
    (h : Node.onStore (Store.write disk f) n = .error e n') : Traceless n n' := by
  obtain ⟨e₀, s, hwrite, -, rfl⟩ := zoom_run_error.1 h
  obtain ⟨-, rfl⟩ := Store.write_error.1 hwrite
  exact ⟨rfl, rfl⟩

theorem processInception_traceless {r : ProcessResult} {s : Serder} {sigs : List Siger}
    {couples : List (String × Bytes)} {raw : Bytes} {e : KeriError}
    (h : processInception X disk r s sigs couples raw n = .error e n') : Traceless n n' := by
  by_cases hok : n.kevers.get r.pfx = none ∧ ∃ k, verifyInception X s sigs couples = .ok k
  · -- all checks pass, so it is the store that has failed
    obtain ⟨hnew, k, hk⟩ := hok
    rw [processInception_run disk r raw hnew hk] at h
    cases hdisk : disk n.store.calls with
    | none =>
        rw [hdisk] at h
        cases h
    | some e' =>
        rw [hdisk] at h
        obtain ⟨-, rfl⟩ := EStateM.Result.error.inj h
        exact ⟨rfl, rfl⟩
  · obtain ⟨e', he⟩ := processInception_error disk r raw
      fun hnew k (hk : verifyInception X s sigs couples = .ok k) => hok ⟨hnew, k, hk⟩
    rw [he] at h
    obtain ⟨-, rfl⟩ := EStateM.Result.error.inj h
    exact Traceless.refl n

theorem processUpdate_traceless {r : ProcessResult} {s : Serder} {sigs : List Siger}
    {couples : List (String × Bytes)} {raw : Bytes} {e : KeriError}
    (h : processUpdate X disk r s sigs couples raw n = .error e n') : Traceless n n' := by
  by_cases hok : ∃ k t, n.kevers.get r.pfx = some k ∧ verifyNext X k s sigs couples = .ok t
  · obtain ⟨k, t, hk, ht⟩ := hok
    rw [processUpdate_run disk r raw hk ht] at h
    cases hdisk : disk n.store.calls with
    | none =>
        rw [hdisk] at h
        cases h
    | some e' =>
        rw [hdisk] at h
        obtain ⟨-, rfl⟩ := EStateM.Result.error.inj h
        exact ⟨rfl, rfl⟩
  · have hsame := processUpdate_unverified disk r raw
      fun k hk t (ht : verifyNext X k s sigs couples = .ok t) => hok ⟨k, t, hk, ht⟩
    rw [h, stateAfter_error] at hsame
    rw [hsame]
    exact Traceless.refl n

/-- A parsed message that is refused leaves no trace. -/
theorem processParsed_traceless {parsed : ParsedMessage} {e : KeriError}
    (h : processParsed X disk parsed n = .error e n') : Traceless n n' := by
  have hread := h
  unfold processParsed at hread
  -- the two readings of the message do not touch the receiver
  rcases bind_run_error.1 hread with hheader | ⟨r, n₁, hfirst, hrest⟩
  · obtain ⟨-, rfl⟩ := lift_run_error.1 hheader
    exact Traceless.refl _
  · obtain ⟨hheader, rfl⟩ := lift_run_ok.1 hfirst
    rcases bind_run_error.1 hrest with hcollect | ⟨⟨couples, raw⟩, n₂, hsecond, -⟩
    · obtain ⟨-, rfl⟩ := lift_run_error.1 hcollect
      exact Traceless.refl _
    · obtain ⟨hcollect, rfl⟩ := lift_run_ok.1 hsecond
      rw [processParsed_run (mapError_eq_ok.1 hheader) hcollect] at h
      rcases bind_run_error.1 h with harm | ⟨_, _, -, hend⟩
      · split at harm
        · exact processInception_traceless harm
        · split at harm
          · exact processUpdate_traceless harm
          · split at harm
            · unfold processReceipt at harm
              split at harm
              · cases harm
              · exact traceless_of_write_error harm
            · exact traceless_of_write_error harm
      · cases hend

/-- **An error leaves no trace**: no verifier and no table has changed. -/
theorem rejected_leaves_no_trace {data : Bytes} {e : KeriError}
    (h : processMessage X disk data n = .error e n') :
    n'.kevers = n.kevers ∧ n'.store.tables = n.store.tables := by
  unfold processMessage at h
  rcases bind_run_error.1 h with hparse | ⟨⟨parsed, size⟩, n₁, hparse, hrun⟩
  · obtain ⟨-, rfl⟩ := lift_run_error.1 hparse
    exact ⟨rfl, rfl⟩
  · obtain ⟨-, rfl⟩ := lift_run_ok.1 hparse
    have htraceless := processParsed_traceless hrun
    exact ⟨htraceless.kevers, htraceless.tables⟩

/-- A disk on which every call fails. -/
def Disk.broken : Disk := fun _ => some (.lmdb "broken")

/-- An inception that passes every check is refused by the store, and one with a byte of its body
changed by a check. -/
theorem rejected_toy : ∃ e n' e' n'',
    processMessage Toy.lib .broken toyIcpMessage Node.empty = .error e n' ∧
    (n'.kevers = Node.empty.kevers ∧ n'.store.tables = Node.empty.store.tables) ∧
    processMessage Toy.lib .sound (toyIcpMessage.set 60 66) Node.empty = .error e' n'' ∧
    (n''.kevers = Node.empty.kevers ∧ n''.store.tables = Node.empty.store.tables) := by
  obtain ⟨e, n', h⟩ := exists_error_of_okAnd
    (x := processMessage Toy.lib .broken toyIcpMessage Node.empty) (by decide +kernel)
  obtain ⟨e', n'', h'⟩ := exists_error_of_okAnd
    (x := processMessage Toy.lib .sound (toyIcpMessage.set 60 66) Node.empty) (by decide +kernel)
  exact ⟨e, n', e', n'', h, rejected_leaves_no_trace h, h', rejected_leaves_no_trace h'⟩

/-! ### What comes of a message -/

variable (X) in
/-- What comes of a message, given the verifier of its identifier: an error, or what is reported
and the verifier after it, if the message is an event that is logged. -/
def react (parsed : ParsedMessage) (before : Option Kever) :
    Except KeriError (ProcessResult × Option Kever) := do
  let r ← parsed.serder.header.mapError KeriError.core
  let sigs := extractControllerSigs parsed.attachments
  let (couples, _) ← collectAttachments X r.pfx parsed.attachments
  if isInception r.ilk then
    ensure (before.isSome = false)
      (.alreadyExists s!"inception already exists for prefix '{r.pfx}'")
    let k ← verifyInception X parsed.serder sigs couples
    pure (r, some k)
  else if isUpdate r.ilk then
    match before with
    | none => pure (r, none)
    | some k => do
        let t ← verifyNext X k parsed.serder sigs couples
        pure (r, some (k.applyVerifiedUpdate t))
  else pure (r, none)

/-- What the receiver keeps of identifiers. -/
structure Registry where
  kevers : Table String Kever
  kels : Table String String
  fels : Table String String

def Node.registry (n : Node) : Registry :=
  { kevers := n.kevers, kels := n.store.tables.kels, fels := n.store.tables.fels }

/-- An event that is logged goes into all three tables; nothing else goes into any. -/
def Registry.record (g : Registry) : Except KeriError (ProcessResult × Option Kever) → Registry
  | .ok (r, some k) =>
      { kevers := g.kevers.put r.pfx k
        kels := g.kels.put (snKey r.pfx r.sn) r.said
        fels := g.fels.put (snKey r.pfx r.sn) r.said }
  | _ => g

theorem registry_logged (n : Node) (r : ProcessResult) (raw : Bytes) (sigs : Option Bytes)
    (k : Kever) :
    (n.logged r raw sigs k).registry = n.registry.record (.ok (r, some k)) := by
  simp [Node.registry, Node.logged, Registry.record]

/-- What is recorded is of the message's identifier, and numbered within bounds. -/
theorem react_of {parsed : ParsedMessage} {p : String} {before : Option Kever} {r : ProcessResult}
    {after : Option Kever} (hp : parsed.serder.pfx = .ok p)
    (h : react X parsed before = .ok (r, after)) : r.pfx = p ∧ r.sn < u64Bound := by
  unfold react at h
  obtain ⟨r', hheader, h⟩ := bind_eq_ok.1 h
  obtain ⟨hpfx, hsn, -, -⟩ := Serder.header_eq_ok.1 (mapError_eq_ok.1 hheader)
  obtain ⟨⟨couples, raw⟩, -, h⟩ := bind_eq_ok.1 h
  have hr : r' = r := by
    simp only at h
    split at h
    · simp only [bind_eq_ok, pure_eq_ok, Prod.mk.injEq] at h
      obtain ⟨-, -, -, -, rfl, -⟩ := h
      rfl
    · split at h
      · split at h
        · exact (Prod.mk.inj (pure_eq_ok.1 h)).1
        · simp only [bind_eq_ok, pure_eq_ok, Prod.mk.injEq] at h
          obtain ⟨-, -, rfl, -⟩ := h
          rfl
      · exact (Prod.mk.inj (pure_eq_ok.1 h)).1
  subst hr
  rw [hp] at hpfx
  exact ⟨(Except.ok.inj hpfx).symm, Serder.sn_lt hsn⟩

/-- An inception does to the receiver what it does to its identifier. -/
theorem processInception_react (r : ProcessResult) (s : Serder) (sigs : List Siger)
    (couples : List (String × Bytes)) (raw : Bytes) (n : Node) :
    let o : Except KeriError (ProcessResult × Option Kever) := do
      ensure ((n.kevers.get r.pfx).isSome = false)
        (.alreadyExists s!"inception already exists for prefix '{r.pfx}'")
      let k ← verifyInception X s sigs couples
      pure (r, some k)
    resultOf ((processInception X .sound r s sigs couples raw >>= fun _ => pure r) n) =
        o.map Prod.fst ∧
      (stateAfter ((processInception X .sound r s sigs couples raw >>= fun _ => pure r) n)).registry
        = n.registry.record o := by
  intro o
  cases hk : n.kevers.get r.pfx with
  | some k =>
      have hrun : processInception X .sound r s sigs couples raw n =
          .error (.alreadyExists s!"inception already exists for prefix '{r.pfx}'") n := by
        unfold processInception
        rw [bind_run_of_ok get_run]
        simp only [hk, Option.isSome_some, if_true]
        exact bind_run_of_error throw_run
      have ho : o = .error (.alreadyExists s!"inception already exists for prefix '{r.pfx}'") := by
        simp only [o, hk, Option.isSome_some]
        rfl
      rw [bind_run_of_error hrun, ho]
      exact ⟨rfl, rfl⟩
  | none =>
      have ho : o = verifyInception X s sigs couples >>= fun k => pure (r, some k) := by
        simp only [o, hk, Option.isSome_none]
        rfl
      rw [ho]
      rcases ok_or_error (verifyInception X s sigs couples) with ⟨k, hok⟩ | ⟨e, he⟩
      · rw [bind_run_of_ok (processInception_run .sound r raw hk hok), hok]
        exact ⟨rfl, registry_logged n r s.raw _ _⟩
      · have hrun : processInception X .sound r s sigs couples raw n = .error e n := by
          unfold processInception
          rw [bind_run_of_ok get_run]
          simp only [hk, Option.isSome_none, Bool.false_eq_true, if_false]
          exact bind_run_of_error (lift_run_error.2 ⟨he, rfl⟩)
        rw [bind_run_of_error hrun, he]
        exact ⟨rfl, rfl⟩

/-- So does an update. -/
theorem processUpdate_react (r : ProcessResult) (s : Serder) (sigs : List Siger)
    (couples : List (String × Bytes)) (raw : Bytes) (n : Node) :
    let o : Except KeriError (ProcessResult × Option Kever) :=
      match n.kevers.get r.pfx with
      | none => pure (r, none)
      | some k => do
          let t ← verifyNext X k s sigs couples
          pure (r, some (k.applyVerifiedUpdate t))
    resultOf ((processUpdate X .sound r s sigs couples raw >>= fun _ => pure r) n) =
        o.map Prod.fst ∧
      (stateAfter ((processUpdate X .sound r s sigs couples raw >>= fun _ => pure r) n)).registry
        = n.registry.record o := by
  intro o
  cases hk : n.kevers.get r.pfx with
  | none =>
      have hrun : processUpdate X .sound r s sigs couples raw n = .ok ⟨⟩ n := by
        unfold processUpdate
        rw [bind_run_of_ok get_run, hk]
        rfl
      have ho : o = pure (r, none) := by simp only [o, hk]
      rw [bind_run_of_ok hrun, ho]
      exact ⟨rfl, rfl⟩
  | some k =>
      have ho : o = verifyNext X k s sigs couples >>= fun t =>
          pure (r, some (k.applyVerifiedUpdate t)) := by simp only [o, hk]
      rw [ho]
      rcases ok_or_error (verifyNext X k s sigs couples) with ⟨t, hok⟩ | ⟨e, he⟩
      · rw [bind_run_of_ok (processUpdate_run .sound r raw hk hok), hok]
        exact ⟨rfl, registry_logged n r s.raw _ _⟩
      · have hrun : processUpdate X .sound r s sigs couples raw n = .error e n := by
          unfold processUpdate
          rw [bind_run_of_ok get_run, hk]
          simp only
          exact bind_run_of_error (lift_run_error.2 ⟨he, rfl⟩)
        rw [bind_run_of_error hrun, he]
        exact ⟨rfl, rfl⟩

/-- A message of any other kind is reported, and nothing of an identifier changes. -/
theorem registry_of_write (f : Tables → Tables) (hkels : ∀ t, (f t).kels = t.kels)
    (hfels : ∀ t, (f t).fels = t.fels) (r : ProcessResult) (n : Node) :
    resultOf ((Node.onStore (Store.write .sound f) >>= fun _ => pure r) n) = .ok r ∧
      (stateAfter ((Node.onStore (Store.write .sound f) >>= fun _ => pure r) n)).registry =
        n.registry := by
  have hrun : (Node.onStore (Store.write .sound f) >>= fun _ => pure r) n =
      .ok r { n with store := { tables := f n.store.tables, calls := n.store.calls + 1 } } :=
    bind_run_ok.2 ⟨⟨⟩, _, zoom_run_ok.2 ⟨_, Store.write_ok.2 ⟨rfl, rfl⟩, rfl⟩, rfl⟩
  rw [hrun]
  exact ⟨rfl, by simp [Node.registry, hkels, hfels]⟩

/-- **A message does to the receiver what it does to its identifier**: what is reported and what is
recorded depend on the verifier of the message's identifier only. -/
theorem processParsed_react {parsed : ParsedMessage} {p : String}
    (hp : parsed.serder.pfx = .ok p) (n : Node) :
    resultOf (processParsed X .sound parsed n) =
        (react X parsed (n.kevers.get p)).map Prod.fst ∧
      (stateAfter (processParsed X .sound parsed n)).registry =
        n.registry.record (react X parsed (n.kevers.get p)) := by
  rcases ok_or_error (parsed.serder.header.mapError KeriError.core) with ⟨r, hr⟩ | ⟨e, he⟩
  · obtain ⟨hpfx, -, -, -⟩ := Serder.header_eq_ok.1 (mapError_eq_ok.1 hr)
    obtain rfl : p = r.pfx := Except.ok.inj (hp.symm.trans hpfx)
    rcases ok_or_error (collectAttachments X r.pfx parsed.attachments) with
      ⟨⟨couples, raw⟩, hcollect⟩ | ⟨e, he⟩
    · rw [processParsed_run (mapError_eq_ok.1 hr) hcollect]
      unfold react
      rw [hr, ok_bind, hcollect, ok_bind]
      simp only
      by_cases hicp : isInception r.ilk
      · rw [if_pos hicp, if_pos hicp]
        exact processInception_react r _ _ couples raw n
      · rw [if_neg hicp, if_neg hicp]
        by_cases hup : isUpdate r.ilk
        · rw [if_pos hup, if_pos hup]
          exact processUpdate_react r _ _ couples raw n
        · rw [if_neg hup, if_neg hup]
          split
          · unfold processReceipt
            split
            · exact ⟨rfl, rfl⟩
            · exact registry_of_write _ (fun _ => rfl) (fun _ => rfl) r n
          · exact registry_of_write _ (fun _ => rfl) (fun _ => rfl) r n
    · have hrun : processParsed X .sound parsed n = .error e n := by
        unfold processParsed
        rw [bind_run_of_ok (lift_run_ok.2 ⟨hr, rfl⟩)]
        exact bind_run_of_error (lift_run_error.2 ⟨he, rfl⟩)
      unfold react
      rw [hrun, hr, ok_bind, he]
      exact ⟨rfl, rfl⟩
  · have hrun : processParsed X .sound parsed n = .error e n := by
      unfold processParsed
      exact bind_run_of_error (lift_run_error.2 ⟨he, rfl⟩)
    unfold react
    rw [hrun, he]
    exact ⟨rfl, rfl⟩

/-! ### Two identifiers -/

/-- What is recorded of an identifier is not seen at another one. -/
theorem Registry.record_of_ne {parsed : ParsedMessage} {p q : String} (before : Option Kever)
    (hp : parsed.serder.pfx = .ok p) (hne : q ≠ p) (g : Registry) :
    (g.record (react X parsed before)).kevers.get q = g.kevers.get q ∧
      ∀ sn < u64Bound,
        (g.record (react X parsed before)).kels.get (snKey q sn) = g.kels.get (snKey q sn) ∧
        (g.record (react X parsed before)).fels.get (snKey q sn) = g.fels.get (snKey q sn) := by
  rcases ok_or_error (react X parsed before) with ⟨⟨r, after⟩, hr⟩ | ⟨e, he⟩
  · obtain ⟨rfl, hlt⟩ := react_of hp hr
    rw [hr]
    cases after with
    | none => exact ⟨rfl, fun _ _ => ⟨rfl, rfl⟩⟩
    | some k =>
        refine ⟨Table.get_put_of_ne _ hne k, fun sn hsn => ?_⟩
        have hkey : snKey q sn ≠ snKey r.pfx r.sn := fun h => hne (snKey_inj hsn hlt h).1
        exact ⟨Table.get_put_of_ne _ hkey _, Table.get_put_of_ne _ hkey _⟩
  · rw [he]
    exact ⟨rfl, fun _ _ => ⟨rfl, rfl⟩⟩

/-- What is recorded of two identifiers is recorded in either order. -/
theorem Registry.record_comm {parsed₁ parsed₂ : ParsedMessage} {p₁ p₂ : String}
    {before₁ before₂ : Option Kever} (hp₁ : parsed₁.serder.pfx = .ok p₁)
    (hp₂ : parsed₂.serder.pfx = .ok p₂) (hne : p₁ ≠ p₂) (g : Registry) :
    (g.record (react X parsed₁ before₁)).record (react X parsed₂ before₂) =
      (g.record (react X parsed₂ before₂)).record (react X parsed₁ before₁) := by
  rcases ok_or_error (react X parsed₁ before₁) with ⟨⟨r₁, after₁⟩, hr₁⟩ | ⟨e, he⟩
  · rcases ok_or_error (react X parsed₂ before₂) with ⟨⟨r₂, after₂⟩, hr₂⟩ | ⟨e, he⟩
    · obtain ⟨rfl, hlt₁⟩ := react_of hp₁ hr₁
      obtain ⟨rfl, hlt₂⟩ := react_of hp₂ hr₂
      rw [hr₁, hr₂]
      cases after₁ with
      | none => rfl
      | some k₁ =>
          cases after₂ with
          | none => rfl
          | some k₂ =>
              have hkey : snKey r₁.pfx r₁.sn ≠ snKey r₂.pfx r₂.sn :=
                fun h => hne (snKey_inj hlt₁ hlt₂ h).1
              simp only [Registry.record, Registry.mk.injEq]
              exact ⟨Table.put_comm _ hne _ _, Table.put_comm _ hkey _ _,
                Table.put_comm _ hkey _ _⟩
    · rw [he]
      rfl
  · rw [he]
    rfl

/-- The identifier of a verifier that the library has built is an encoded primitive. -/
theorem Reachable.cesrText {k : Kever} (h : Reachable X k) : CesrText X k.state.pfx :=
  h.pfx_of (fun hverify hincept => Kever.incept_cesrText hverify hincept)
    (fun hverify hd => cesrText_of_verifySaid hverify hd)

/-- What is recorded is an event that is accepted. -/
theorem react_accepted {parsed : ParsedMessage} {before : Option Kever} {r : ProcessResult}
    {k : Kever} (h : react X parsed before = .ok (r, some k)) :
    ∃ sigs, AcceptedBy X before parsed r sigs k := by
  unfold react at h
  obtain ⟨r', hheader, h⟩ := bind_eq_ok.1 h
  rw [mapError_eq_ok] at hheader
  obtain ⟨⟨couples, raw⟩, hcollect, h⟩ := bind_eq_ok.1 h
  simp only at h
  split at h
  · rename_i hicp
    simp only [bind_eq_ok, ensure_eq_ok, pure_eq_ok, Prod.mk.injEq, Option.some_inj] at h
    obtain ⟨-, hnone, _, hk, rfl, rfl⟩ := h
    exact ⟨_, .inception hheader hcollect hicp (by simpa using hnone) hk⟩
  · split at h
    · rename_i hup
      split at h
      · exact absurd (Prod.mk.inj (pure_eq_ok.1 h)).2 (by simp)
      · simp only [bind_eq_ok, pure_eq_ok, Prod.mk.injEq, Option.some_inj] at h
        obtain ⟨_, ht, rfl, rfl⟩ := h
        exact ⟨_, .update hheader hcollect hup rfl ht⟩
    · exact absurd (Prod.mk.inj (pure_eq_ok.1 h)).2 (by simp)

/-- The log of another identifier, as it is read, stays as it was. -/
theorem Registry.kel_record_of_ne (hX : NoSeparator X) {parsed : ParsedMessage} {p q : String}
    {before : Option Kever} (hp : parsed.serder.pfx = .ok p) (hne : q ≠ p)
    (hbefore : ∀ k, before = some k → Reachable X k) {n n' : Node}
    (h : n'.registry = n.registry.record (react X parsed before)) :
    n'.store.tables.kel q = n.store.tables.kel q := by
  have hkels : n'.store.tables.kels = (n.registry.record (react X parsed before)).kels :=
    congrArg Registry.kels h
  rcases ok_or_error (react X parsed before) with ⟨⟨r, after⟩, hr⟩ | ⟨e, he⟩
  · obtain ⟨rfl, hlt⟩ := react_of hp hr
    rw [hr] at hkels
    cases after with
    | none => rw [Tables.kel_eq, Tables.kel_eq, hkels]; rfl
    | some k =>
        obtain ⟨sigs, haccepted⟩ := react_accepted hr
        obtain ⟨-, -, -, -, -, hcase⟩ := haccepted.advance
        -- the identifier is an encoded primitive, of a new verifier or of an old one
        have hdot : DotFree r.pfx := by
          rcases hcase with ⟨-, -, -, hcesr⟩ | ⟨k₀, hk₀, -, hpfx, -⟩
          · exact hX _ hcesr
          · exact hpfx ▸ hX _ (hbefore k₀ hk₀).cesrText
        exact Tables.kel_put_of_ne hdot hlt hkels hne
  · rw [he] at hkels
    rw [Tables.kel_eq, Tables.kel_eq, hkels]
    rfl

/-- **Messages of two identifiers commute.**  Either order gives the same results, verifiers, logs
and first-seen records, and the first message changes nothing of any identifier but its own: no
verifier, no entry at any sequence number, and where the verifiers come from the library, not the
log as it is read. -/
theorem identifiers_independent {data₁ data₂ : Bytes} {m₁ m₂ : ParsedMessage} {size₁ size₂ : ℕ}
    {p₁ p₂ : String} (h₁ : parseNext X data₁ = .ok (m₁, size₁))
    (h₂ : parseNext X data₂ = .ok (m₂, size₂)) (hp₁ : m₁.serder.pfx = .ok p₁)
    (hp₂ : m₂.serder.pfx = .ok p₂) (hne : p₁ ≠ p₂) (n : Node) :
    let first₁ := processMessage X .sound data₁ n
    let first₂ := processMessage X .sound data₂ n
    let then₂ := processMessage X .sound data₂ (stateAfter first₁)
    let then₁ := processMessage X .sound data₁ (stateAfter first₂)
    (resultOf first₁ = resultOf then₁ ∧ resultOf then₂ = resultOf first₂) ∧
      ((stateAfter then₂).kevers = (stateAfter then₁).kevers ∧
        (stateAfter then₂).store.tables.kels = (stateAfter then₁).store.tables.kels ∧
        (stateAfter then₂).store.tables.fels = (stateAfter then₁).store.tables.fels) ∧
      ∀ q, q ≠ p₁ → (stateAfter first₁).kevers.get q = n.kevers.get q ∧
        (∀ sn < u64Bound,
          (stateAfter first₁).store.tables.kels.get (snKey q sn) =
              n.store.tables.kels.get (snKey q sn) ∧
            (stateAfter first₁).store.tables.fels.get (snKey q sn) =
              n.store.tables.fels.get (snKey q sn)) ∧
        (NoSeparator X → (∀ p k, n.kevers.get p = some k → Reachable X k) →
          (stateAfter first₁).store.tables.kel q = n.store.tables.kel q) := by
  intro first₁ first₂ then₂ then₁
  obtain ⟨hres₁, hreg₁⟩ := processParsed_react (X := X) hp₁ n
  obtain ⟨hres₂, hreg₂⟩ := processParsed_react (X := X) hp₂ n
  rw [← processMessage_of_parse h₁] at hres₁ hreg₁
  rw [← processMessage_of_parse h₂] at hres₂ hreg₂
  obtain ⟨hresThen₂, hregThen₂⟩ := processParsed_react (X := X) hp₂ (stateAfter first₁)
  obtain ⟨hresThen₁, hregThen₁⟩ := processParsed_react (X := X) hp₁ (stateAfter first₂)
  rw [← processMessage_of_parse h₂] at hresThen₂ hregThen₂
  rw [← processMessage_of_parse h₁] at hresThen₁ hregThen₁
  -- neither message sees what the other has done
  have hsee₂ : (stateAfter first₁).kevers.get p₂ = n.kevers.get p₂ := by
    have h := (n.registry.record_of_ne (n.kevers.get p₁) hp₁ hne.symm (X := X)).1
    rw [← hreg₁] at h
    exact h
  have hsee₁ : (stateAfter first₂).kevers.get p₁ = n.kevers.get p₁ := by
    have h := (n.registry.record_of_ne (n.kevers.get p₂) hp₂ hne (X := X)).1
    rw [← hreg₂] at h
    exact h
  rw [hsee₂] at hresThen₂ hregThen₂
  rw [hsee₁] at hresThen₁ hregThen₁
  have hreg : (stateAfter then₂).registry = (stateAfter then₁).registry := by
    rw [hregThen₂, hreg₁, hregThen₁, hreg₂]
    exact Registry.record_comm hp₁ hp₂ hne n.registry
  refine ⟨⟨hres₁.trans hresThen₁.symm, hresThen₂.trans hres₂.symm⟩, ⟨congrArg Registry.kevers hreg,
    congrArg Registry.kels hreg, congrArg Registry.fels hreg⟩, fun q hq => ?_⟩
  obtain ⟨hkever, hentries⟩ :=
    n.registry.record_of_ne (n.kevers.get p₁) hp₁ hq (X := X)
  rw [← hreg₁] at hkever hentries
  exact ⟨hkever, hentries, fun hX hreach =>
    Registry.kel_record_of_ne hX hp₁ hq (fun k hk => hreach p₁ k hk) hreg₁⟩

/-- An inception of another identifier, signed. -/
def toyOtherIcp : Bytes :=
  Toy.signedBytes (Toy.eventBytes (Toy.icpFields "1" "1" [3] [4])) 3

/-- The identifier of the first message of a stream. -/
def toyPfx (data : Bytes) : String :=
  (((parseNext Toy.lib data).bind fun p => p.1.serder.pfx).toOption).getD ""

theorem parseNext_of_toyPfx {data : Bytes} (h : toyPfx data ≠ "") :
    ∃ m size, parseNext Toy.lib data = .ok (m, size) ∧ m.serder.pfx = .ok (toyPfx data) := by
  unfold toyPfx at h ⊢
  rcases ok_or_error (parseNext Toy.lib data) with ⟨⟨m, size⟩, hparse⟩ | ⟨e, he⟩
  · rcases ok_or_error m.serder.pfx with ⟨p, hp⟩ | ⟨e, he⟩
    · refine ⟨m, size, hparse, ?_⟩
      rw [hparse]
      simp only [Except.bind, hp]
      rfl
    · rw [hparse] at h
      simp only [Except.bind, he] at h
      exact absurd rfl h
  · rw [he] at h
    exact absurd rfl h

/-- Two inceptions in either order; both are accepted. -/
theorem identifiers_independent_toy :
    okAnd (fun _ _ => true) (processMessage Toy.lib .sound toyIcpMessage Node.empty) = true ∧
    okAnd (fun _ _ => true) (processMessage Toy.lib .sound toyOtherIcp Node.empty) = true ∧
    resultOf (processMessage Toy.lib .sound toyIcpMessage Node.empty) =
      resultOf (processMessage Toy.lib .sound toyIcpMessage
        (stateAfter (processMessage Toy.lib .sound toyOtherIcp Node.empty))) := by
  have hfacts : (okAnd (fun _ _ => true)
      (processMessage Toy.lib .sound toyIcpMessage Node.empty) &&
      okAnd (fun _ _ => true) (processMessage Toy.lib .sound toyOtherIcp Node.empty) &&
      decide (toyPfx toyIcpMessage ≠ "" ∧ toyPfx toyOtherIcp ≠ "" ∧
        toyPfx toyIcpMessage ≠ toyPfx toyOtherIcp)) = true := by
    decide +kernel
  simp only [Bool.and_eq_true, decide_eq_true_eq] at hfacts
  obtain ⟨⟨hok, hok'⟩, hpfx, hpfx', hne⟩ := hfacts
  obtain ⟨m, size, hparse, hp⟩ := parseNext_of_toyPfx hpfx
  obtain ⟨m', size', hparse', hp'⟩ := parseNext_of_toyPfx hpfx'
  have h := identifiers_independent hparse hparse' hp hp' hne Node.empty
  exact ⟨hok, hok', h.1.1⟩

end Keri
