/-
**Checked execution.**

Code that computes offsets into a buffer can fault where it should return: outside of the buffer,
between the bytes of a character, past the machine word, or by not coming to an end.  Here each of
these is a value that a run can stop with, next to its errors, and a run agrees with a computation
that has errors only when it has its results and stops with no fault.

* `Checked.Fault`, `Checked.Run` — how a run can stop;
* `Checked.add`, `Checked.slice`, `Checked.strSlice`, `Checked.within` — the operations that can
  fault;
* `Checked.Agrees` — a run without faults, with the results of a computation;
* `Checked.Agrees.bind`, `Checked.Agrees.bind_shifted`, `Checked.Agrees.forCount` — **agreement is
  kept** by sequencing, from one offset to the next, and by a loop that carries its offset.
-/

import Keri.Lib.Reader

set_option relaxedAutoImplicit false
set_option autoImplicit false

namespace Checked

open Outcome Reader

variable {ε α β γ : Type}

/-! ### Runs -/

/-- What can go wrong in a run besides its errors. -/
inductive Fault where
  /-- An index or a slice that is not inside of its buffer. -/
  | outOfRange
  /-- A slice of a text that starts or ends inside of a character. -/
  | boundary
  /-- A number that does not fit a machine word. -/
  | overflow
  /-- A loop that goes on for longer than it is given. -/
  | outOfFuel
  /-- A nested call on an input that is not shorter. -/
  | notShorter
  deriving DecidableEq, Repr

/-- Why a run stops without a result. -/
inductive Stop (ε : Type) where
  | fault (f : Fault)
  | error (e : ε)
  deriving DecidableEq, Repr

/-- A run, with its result or the reason why it has none. -/
abbrev Run (ε α : Type) := Except (Stop ε) α

def fault (f : Fault) : Run ε α := .error (.fault f)

def raise (e : ε) : Run ε α := .error (.error e)

/-- A computation that cannot fault. -/
def lift (y : Except ε α) : Run ε α := y.mapError .error

def check (c : Prop) [Decidable c] (e : ε) : Run ε Unit := ensure c (.error e)

def need (x : Option α) (e : ε) : Run ε α := okOr x (.error e)

/-- `Result::ok`. -/
def attempt : Run ε α → Run ε (Option α)
  | .ok a => .ok (some a)
  | .error (.error _) => .ok none
  | .error (.fault f) => .error (.fault f)

/-! ### Operations that can fault -/

/-- The number of values of a machine word. -/
def wordBound : ℕ := 2 ^ 64

def add (m n : ℕ) : Run ε ℕ := if m + n < wordBound then .ok (m + n) else fault .overflow

def mul (m n : ℕ) : Run ε ℕ := if m * n < wordBound then .ok (m * n) else fault .overflow

def sub (m n : ℕ) : Run ε ℕ := if n ≤ m then .ok (m - n) else fault .overflow

/-- `usize::checked_add`. -/
def checkedAdd (m n : ℕ) : Option ℕ := if m + n < wordBound then some (m + n) else none

/-- `usize::checked_mul`. -/
def checkedMul (m n : ℕ) : Option ℕ := if m * n < wordBound then some (m * n) else none

/-- `data[i]`. -/
def index (data : List α) (i : ℕ) : Run ε α :=
  match data[i]? with
  | some a => .ok a
  | none => fault .outOfRange

/-- `&data[a..b]`. -/
def slice (data : List α) (a b : ℕ) : Run ε (List α) :=
  if a ≤ b ∧ b ≤ data.length then .ok ((data.drop a).take (b - a)) else fault .outOfRange

/-- `&data[a..]`. -/
def sliceFrom (data : List α) (a : ℕ) : Run ε (List α) := slice data a data.length

/-- `&data[..b]`. -/
def sliceTo (data : List α) (b : ℕ) : Run ε (List α) := slice data 0 b

/-- `data.split_at(mid)`. -/
def splitAt (data : List α) (mid : ℕ) : Run ε (List α × List α) :=
  if mid ≤ data.length then .ok (data.take mid, data.drop mid) else fault .outOfRange

/-- `data[start..].copy_from_slice(source)`: the two slices have one length. -/
def copyFromSlice (data : List α) (start : ℕ) (source : List α) : Run ε (List α) := do
  let rest ← sliceFrom data start
  if rest.length = source.length then pure (data.take start ++ source) else fault .outOfRange

/-- `str::is_char_boundary`, of a text given by its bytes. -/
def isCharBoundary (text : List UInt8) (i : ℕ) : Bool :=
  decide (i = 0) || decide (i = text.length) ||
    text[i]?.any fun b => decide (b < 128) || decide (192 ≤ b)

/-- `&text[a..b]`. -/
def strSlice (text : List UInt8) (a b : ℕ) : Run ε (List UInt8) := do
  let bytes ← slice text a b
  if isCharBoundary text a ∧ isCharBoundary text b then pure bytes else fault .boundary

/-- `&text[a..]`. -/
def strSliceFrom (text : List UInt8) (a : ℕ) : Run ε (List UInt8) := strSlice text a text.length

/-- `&text[..b]`. -/
def strSliceTo (text : List UInt8) (b : ℕ) : Run ε (List UInt8) := strSlice text 0 b

/-- A nested call, which has to be on a shorter input. -/
def within (outer : List α) (call : List α → Run ε β) (span : List α) : Run ε β :=
  if span.length < outer.length then call span else fault .notShorter

/-- A loop over indices that carries an offset. -/
def forCount (body : ℕ → ℕ → Run ε (β × ℕ)) : ℕ → ℕ → ℕ → Run ε (List β × ℕ)
  | 0, _, offset => .ok ([], offset)
  | k + 1, i, offset => do
      let (x, offset) ← body i offset
      let (xs, offset) ← forCount body k (i + 1) offset
      pure (x :: xs, offset)

/-! ### Where they do not fault -/

theorem add_ok {m n : ℕ} (h : m + n < wordBound) : (add m n : Run ε ℕ) = .ok (m + n) := if_pos h

theorem mul_ok {m n : ℕ} (h : m * n < wordBound) : (mul m n : Run ε ℕ) = .ok (m * n) := if_pos h

theorem sub_ok {m n : ℕ} (h : n ≤ m) : (sub m n : Run ε ℕ) = .ok (m - n) := if_pos h

theorem index_ok {data : List α} {i : ℕ} {a : α} (h : data[i]? = some a) :
    (index data i : Run ε α) = .ok a := by
  rw [index, h]

theorem slice_ok {data : List α} {a b : ℕ} (hab : a ≤ b) (hb : b ≤ data.length) :
    (slice data a b : Run ε (List α)) = .ok ((data.drop a).take (b - a)) :=
  if_pos ⟨hab, hb⟩

theorem sliceFrom_ok {data : List α} {a : ℕ} (h : a ≤ data.length) :
    (sliceFrom data a : Run ε (List α)) = .ok (data.drop a) := by
  rw [sliceFrom, slice_ok h le_rfl, ← List.length_drop, List.take_length]

theorem sliceTo_ok {data : List α} {b : ℕ} (h : b ≤ data.length) :
    (sliceTo data b : Run ε (List α)) = .ok (data.take b) := by
  rw [sliceTo, slice_ok (Nat.zero_le b) h, List.drop_zero, Nat.sub_zero]

theorem splitAt_ok {data : List α} {mid : ℕ} (h : mid ≤ data.length) :
    (splitAt data mid : Run ε (List α × List α)) = .ok (data.take mid, data.drop mid) := if_pos h

theorem copyFromSlice_ok {data source : List α} {start : ℕ}
    (h : start + source.length = data.length) :
    (copyFromSlice data start source : Run ε (List α)) = .ok (data.take start ++ source) := by
  have hlen : (data.drop start).length = source.length := by
    rw [List.length_drop]
    omega
  rw [copyFromSlice, sliceFrom_ok (by omega), ok_bind, if_pos hlen]
  rfl

/-- Where the byte is ASCII, or there is none, a slice can start and end. -/
theorem isCharBoundary_of_ascii {text : List UInt8} {i : ℕ} (hi : i ≤ text.length)
    (h : ∀ b, text[i]? = some b → b < 128) : isCharBoundary text i = true := by
  rcases Nat.lt_or_eq_of_le hi with hlt | heq
  · have hb := h _ (List.getElem?_eq_getElem hlt)
    simp [isCharBoundary, List.getElem?_eq_getElem hlt, hb]
  · simp [isCharBoundary, heq]

theorem strSlice_ok {text : List UInt8} {a b : ℕ} (hab : a ≤ b) (hb : b ≤ text.length)
    (hta : ∀ c, text[a]? = some c → c < 128) (htb : ∀ c, text[b]? = some c → c < 128) :
    (strSlice text a b : Run ε (List UInt8)) = .ok ((text.drop a).take (b - a)) := by
  rw [strSlice, slice_ok hab hb, ok_bind, if_pos]
  · rfl
  · exact ⟨isCharBoundary_of_ascii (hab.trans hb) hta, isCharBoundary_of_ascii hb htb⟩

/-- A slice of an ASCII text. -/
theorem strSlice_ascii {text : List UInt8} {a b : ℕ} (h : ∀ c ∈ text, c < 128) (hab : a ≤ b)
    (hb : b ≤ text.length) :
    (strSlice text a b : Run ε (List UInt8)) = .ok ((text.drop a).take (b - a)) :=
  strSlice_ok hab hb (fun c hc => h c (List.mem_of_getElem? hc))
    (fun c hc => h c (List.mem_of_getElem? hc))

theorem strSliceFrom_ascii {text : List UInt8} {a : ℕ} (h : ∀ c ∈ text, c < 128)
    (ha : a ≤ text.length) : (strSliceFrom text a : Run ε (List UInt8)) = .ok (text.drop a) := by
  rw [strSliceFrom, strSlice_ascii h ha le_rfl, ← List.length_drop, List.take_length]

theorem strSliceTo_ascii {text : List UInt8} {b : ℕ} (h : ∀ c ∈ text, c < 128)
    (hb : b ≤ text.length) : (strSliceTo text b : Run ε (List UInt8)) = .ok (text.take b) := by
  rw [strSliceTo, strSlice_ascii h (Nat.zero_le b) hb, List.drop_zero, Nat.sub_zero]

theorem within_ok {outer span : List α} {call : List α → Run ε β}
    (h : span.length < outer.length) : within outer call span = call span := if_pos h

/-! ### Agreement -/

/-- The run stops with no fault, and with the results of the computation. -/
def Agrees (x : Run ε α) (y : Except ε α) : Prop :=
  (∀ f, x ≠ .error (.fault f)) ∧ ∀ a, x = .ok a ↔ y = .ok a

theorem Agrees.ok (a : α) : Agrees (.ok a : Run ε α) (.ok a) := by
  constructor
  · intro f h
    cases h
  · intro b
    rw [Except.ok.injEq, Except.ok.injEq]

theorem Agrees.pure (a : α) : Agrees (Pure.pure a : Run ε α) (Pure.pure a) := Agrees.ok a

theorem Agrees.raise (e e' : ε) : Agrees (raise e : Run ε α) (.error e') := by
  constructor
  · intro f h
    cases h
  · intro b
    constructor <;> (intro h; cases h)

/-- Both go on, or both stop with an error. -/
theorem Agrees.cases {x : Run ε α} {y : Except ε α} (h : Agrees x y) :
    (∃ a, x = .ok a ∧ y = .ok a) ∨ ∃ e e', x = .error (.error e) ∧ y = .error e' := by
  obtain ⟨hfault, hok⟩ := h
  cases x with
  | ok a => exact Or.inl ⟨a, rfl, (hok a).1 rfl⟩
  | error stop =>
      cases stop with
      | fault f => exact absurd rfl (hfault f)
      | error e =>
          cases y with
          | ok b => cases (hok b).2 rfl
          | error e' => exact Or.inr ⟨e, e', rfl, rfl⟩

/-- **Sequencing keeps agreement.** -/
theorem Agrees.bind {x : Run ε α} {y : Except ε α} {f : α → Run ε β} {g : α → Except ε β}
    (h : Agrees x y) (hf : ∀ a, y = .ok a → Agrees (f a) (g a)) : Agrees (x >>= f) (y >>= g) := by
  rcases h.cases with ⟨a, rfl, rfl⟩ | ⟨e, e', rfl, rfl⟩
  · exact hf a rfl
  · exact Agrees.raise e e'

theorem Agrees.lift (y : Except ε α) : Agrees (lift y) y := by
  cases y with
  | ok a => exact Agrees.ok a
  | error e => exact Agrees.raise e e

theorem Agrees.check {c c' : Prop} [Decidable c] [Decidable c'] (h : c ↔ c') (e e' : ε) :
    Agrees (check c e) (ensure c' e') := by
  by_cases hc : c
  · rw [Checked.check, ensure, if_pos hc, ensure, if_pos (h.1 hc)]
    exact Agrees.ok ()
  · rw [Checked.check, ensure, if_neg hc, ensure, if_neg (mt h.2 hc)]
    exact Agrees.raise e e'

theorem Agrees.need (x : Option α) (e e' : ε) : Agrees (need x e) (okOr x e') := by
  cases x with
  | some a => exact Agrees.ok a
  | none => exact Agrees.raise e e'

theorem Agrees.check_bind {c c' : Prop} [Decidable c] [Decidable c'] {e e' : ε}
    {f : Unit → Run ε β} {g : PUnit → Except ε β} (hiff : c ↔ c')
    (hf : c' → Agrees (f ⟨⟩) (g ⟨⟩)) : Agrees (Checked.check c e >>= f) (ensure c' e' >>= g) :=
  (Agrees.check hiff e e').bind fun _ hc => hf (ensure_eq_ok.1 hc)

theorem Agrees.need_bind {x : Option α} {e e' : ε} {f : α → Run ε β} {g : α → Except ε β}
    (hf : ∀ a, x = some a → Agrees (f a) (g a)) :
    Agrees (Checked.need x e >>= f) (okOr x e' >>= g) :=
  (Agrees.need x e e').bind fun a ha => hf a (okOr_eq_ok.1 ha)

/-- `Result::ok` of a run that agrees has the results of the computation. -/
theorem Agrees.attempt {x : Run ε α} {y : Except ε α} (h : Agrees x y) :
    attempt x = .ok y.toOption := by
  rcases h.cases with ⟨a, rfl, rfl⟩ | ⟨e, e', rfl, rfl⟩ <;> rfl

theorem check_ok {c : Prop} [Decidable c] (h : c) (e : ε) : check c e = .ok ⟨⟩ := if_pos h

/-! ### Offsets -/

/-- The end of what has been read, from where reading began. -/
def shifted (offset : ℕ) (y : Except ε (β × ℕ)) : Except ε (β × ℕ) :=
  y >>= fun p => pure (p.1, offset + p.2)

theorem shifted_bind {y : Except ε α} {g : α → Except ε (β × ℕ)} {offset : ℕ} :
    shifted offset (y >>= g) = y >>= fun a => shifted offset (g a) := bind_assoc y g _

theorem shifted_zero (y : Except ε (β × ℕ)) : shifted 0 y = y := by
  cases y with
  | ok p => simp [shifted]
  | error e => rfl

/-- **Sequencing keeps agreement from one offset to the next.** -/
theorem Agrees.bind_shifted {x : Run ε (α × ℕ)} {y : Except ε (α × ℕ)} {offset : ℕ}
    {f : α × ℕ → Run ε β} {g : α × ℕ → Except ε β} (h : Agrees x (shifted offset y))
    (hf : ∀ a k, y = .ok (a, k) → Agrees (f (a, offset + k)) (g (a, k))) :
    Agrees (x >>= f) (y >>= g) := by
  rcases y with e | ⟨a, k⟩
  · rcases h.cases with ⟨b, -, hb⟩ | ⟨e₁, -, rfl, -⟩
    · cases hb
    · exact Agrees.raise e₁ e
  · have hx : x = .ok (a, offset + k) := (h.2 _).2 rfl
    rw [hx]
    exact hf a k rfl

/-- **A loop that carries its offset reads what a repeated reader reads.** -/
theorem Agrees.forCount {body : ℕ → ℕ → Run ε (β × ℕ)} {read : ℕ → List α → Except ε (β × ℕ)}
    {data : List α} (hbody : ∀ i offset, offset ≤ data.length →
      Agrees (body i offset) (shifted offset (read i (data.drop offset))))
    (hread : ∀ i, Bounded (read i)) (k i : ℕ) {offset : ℕ}
    (h : offset ≤ data.length) :
    Agrees (forCount body k i offset) (shifted offset (times read i k (data.drop offset))) := by
  induction k generalizing i offset with
  | zero => exact Agrees.ok ([], offset)
  | succ k ih =>
      rw [Checked.forCount, shifted, times, bind_assoc]
      refine (hbody i offset h).bind_shifted ?_
      intro x l hx
      have hle := hread i _ x l hx
      rw [List.length_drop] at hle
      rw [bind_assoc, List.drop_drop]
      refine (ih (i + 1) (show offset + l ≤ data.length by omega)).bind_shifted ?_
      intro xs m _
      have hsum : offset + l + m = offset + (l + m) := Nat.add_assoc offset l m
      simp only [hsum, pure_bind]
      exact Agrees.pure (x :: xs, offset + (l + m))

end Checked
