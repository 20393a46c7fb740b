/-
**What the instance writes, it reads.**

The encoders of the concrete instance fail unless the decoder reads back what they write.  They do
not fail on primitives of full groups of three bytes, nor on objects of plain texts and lists of
plain texts, so that results can be applied to as many inputs as one likes without evaluating any.

* `Keri.Toy.decode_encode`, `Keri.Toy.primitiveRaw_encode` — Base64;
* `Keri.Toy.matterQb64_ok`, `Keri.Toy.indexerQb64_ok` — **primitives and signatures are encoded**;
* `Keri.Toy.PlainValue`, `Keri.Toy.PlainFields` — texts, lists of texts, and objects of them;
* `Keri.Toy.toVec_object_ok` — **such objects are printed**;
* `Keri.Toy.sealEvent_ok` — **events of plain fields are sealed**;
* `Keri.Toy.checksum_ne` — two bytes in one place give two checksums.
-/

import Keri.Signing

set_option relaxedAutoImplicit false
set_option autoImplicit false

namespace Keri.Toy

open Outcome

/-! ### Base64 -/

theorem digitValue_digit {n : ℕ} (h : n < 64) : digitValue (digit n) = some n := by
  revert n
  decide

/-- Three bytes, from the value of their four digits. -/
theorem bytes_of_value (a b c : UInt8) :
    UInt8.ofNat ((a.toNat * 65536 + b.toNat * 256 + c.toNat) / 65536) = a ∧
      UInt8.ofNat ((a.toNat * 65536 + b.toNat * 256 + c.toNat) / 256 % 256) = b ∧
      UInt8.ofNat ((a.toNat * 65536 + b.toNat * 256 + c.toNat) % 256) = c := by
  have ha := a.toNat_lt
  have hb := b.toNat_lt
  have hc := c.toNat_lt
  have h₁ : (a.toNat * 65536 + b.toNat * 256 + c.toNat) / 65536 = a.toNat := by omega
  have h₂ : (a.toNat * 65536 + b.toNat * 256 + c.toNat) / 256 % 256 = b.toNat := by omega
  have h₃ : (a.toNat * 65536 + b.toNat * 256 + c.toNat) % 256 = c.toNat := by omega
  rw [h₁, h₂, h₃]
  exact ⟨UInt8.ofNat_toNat, UInt8.ofNat_toNat, UInt8.ofNat_toNat⟩

/-- Full groups of three bytes are read back from their digits. -/
theorem decode_encode {bs : Bytes} (h : bs.length % 3 = 0) :
    ∃ ds, (encode bs).mapM digitValue = some ds ∧ decode ds = some bs := by
  fun_induction encode bs with
  | case1 a b c bs n ih =>
      have hrest : bs.length % 3 = 0 := by
        simp only [List.length_cons] at h
        omega
      obtain ⟨ds, hds, hdecode⟩ := ih hrest
      have ha := a.toNat_lt
      have hb := b.toNat_lt
      have hc := c.toNat_lt
      have hn : n = a.toNat * 65536 + b.toNat * 256 + c.toNat := rfl
      clear_value n
      refine ⟨n / 262144 :: n / 4096 % 64 :: n / 64 % 64 :: n % 64 :: ds, ?_, ?_⟩
      · simp [List.mapM_cons, digitValue_digit (show n / 262144 < 64 by omega),
          digitValue_digit (show n / 4096 % 64 < 64 by omega),
          digitValue_digit (show n / 64 % 64 < 64 by omega),
          digitValue_digit (show n % 64 < 64 by omega), hds]
      · have hvalue : n / 262144 * 262144 + n / 4096 % 64 * 4096 + n / 64 % 64 * 64 + n % 64 =
            n := by
          clear hn h hrest ha hb hc
          omega
        obtain ⟨h₁, h₂, h₃⟩ := bytes_of_value a b c
        rw [← hn] at h₁ h₂ h₃
        rw [decode, hdecode]
        simp only [hvalue, h₁, h₂, h₃, Option.map_some]
  | case2 bs hshort =>
      refine ⟨[], rfl, ?_⟩
      rcases bs with _ | ⟨a, _ | ⟨b, _ | ⟨c, bs⟩⟩⟩
      · rfl
      · simp at h
      · simp at h
      · exact absurd rfl (hshort a b c bs)

/-- The digits of the pad are those of zero. -/
theorem encode_pad {pad : ℕ} (hpad : pad ≤ 2) {raw : Bytes} (h : (pad + raw.length) % 3 = 0) :
    encode (List.replicate pad 0 ++ raw) =
      List.replicate pad (digit 0) ++ (encode (List.replicate pad 0 ++ raw)).drop pad := by
  match pad, raw, hpad, h with
  | 0, raw, _, _ => rfl
  | 1, b :: c :: raw, _, _ =>
      have hb := b.toNat_lt
      have hc := c.toNat_lt
      have hzero : (0 * 65536 + b.toNat * 256 + c.toNat) / 262144 = 0 := by omega
      simp only [List.replicate_one, List.singleton_append, encode, List.drop_succ_cons,
        List.drop_zero]
      rw [show (0 : UInt8).toNat = 0 from rfl, hzero]
  | 2, c :: raw, _, _ =>
      have hc := c.toNat_lt
      have hzero : (0 * 65536 + 0 * 256 + c.toNat) / 262144 = 0 := by omega
      have hzero' : (0 * 65536 + 0 * 256 + c.toNat) / 4096 % 64 = 0 := by omega
      simp only [List.replicate_succ, List.replicate_zero, List.cons_append, List.nil_append,
        encode, List.drop_succ_cons, List.drop_zero]
      rw [show (0 : UInt8).toNat = 0 from rfl, hzero, hzero']
  | 1, [], _, h => simp at h
  | 1, [_], _, h => simp at h
  | 2, [], _, h => simp at h

/-- The bytes behind a code are read back. -/
theorem primitiveRaw_encode {pad : ℕ} (hpad : pad ≤ 2) {raw : Bytes}
    (h : (pad + raw.length) % 3 = 0) :
    primitiveRaw pad ((encode (List.replicate pad 0 ++ raw)).drop pad) = some raw := by
  have hlen : (List.replicate pad (0 : UInt8) ++ raw).length % 3 = 0 := by
    rw [List.length_append, List.length_replicate]
    exact h
  obtain ⟨ds, hds, hdecode⟩ := decode_encode hlen
  have hzeros : (List.replicate pad (digit 0)).mapM digitValue = some (List.replicate pad 0) := by
    clear h hlen hds hdecode
    induction pad with
    | zero => rfl
    | succ pad ih =>
        have hlow := ih (by omega)
        have hdigit : digitValue (digit 0) = some 0 := rfl
        rw [List.replicate_succ, List.mapM_cons, hdigit, hlow]
        rfl
  rw [encode_pad hpad h, List.mapM_append, hzeros] at hds
  simp only [Option.bind_eq_bind, Option.bind_some, Option.bind_eq_some_iff, Option.pure_def,
    Option.some_inj] at hds
  obtain ⟨rest, hrest, rfl⟩ := hds
  unfold primitiveRaw
  rw [hrest]
  simp only [Option.bind_eq_bind, Option.bind_some, hdecode]
  rw [List.take_left' List.length_replicate, if_pos rfl, List.drop_left' List.length_replicate]

/-! ### Primitives -/

/-- The bytes of a primitive behind a code of one character. -/
theorem strBytes_primitiveText {code : String} {c : UInt8} (hcode : strBytes code = [c])
    (raw : Bytes) :
    strBytes (primitiveText code raw) =
      c :: (encode (List.replicate 1 0 ++ raw)).drop 1 := by
  have hpad : (strBytes code).length % 4 = 1 := by
    rw [hcode]
    rfl
  rw [primitiveText, strBytes_append, hpad, strBytes_textOf (isAscii_drop (isAscii_encode _) 1),
    hcode]
  rfl

/-- The text of a primitive is plain. -/
theorem isPlain_primitiveText {code : String} {c : UInt8} (hcode : strBytes code = [c])
    (hc : isPlainByte c = true) (raw : Bytes) : isPlain (primitiveText code raw) = true := by
  rw [isPlain, strBytes_primitiveText hcode, List.all_cons, Bool.and_eq_true]
  refine ⟨hc, ?_⟩
  rw [List.all_eq_true]
  intro b hb
  exact List.all_eq_true.1 (plain_encode _) b (List.mem_of_mem_drop hb)

/-- **A primitive of full groups is encoded**, behind a code of one character. -/
theorem matterQb64_ok {code : String} {c : UInt8} {fs : ℕ} {raw : Bytes}
    (hcode : strBytes code = [c]) (htext : textOf [c] = code)
    (hhard : hardage (Char.ofNat c.toNat) = some 1) (hsizage : matterSizage code = some ⟨fs⟩)
    (hgroups : (1 + raw.length) % 3 = 0) (hfs : (1 + raw.length) / 3 * 4 = fs) :
    matterQb64 ⟨code, raw⟩ = .ok (primitiveText code raw) ∧
      (strBytes (primitiveText code raw)).length = fs := by
  have hbytes := strBytes_primitiveText hcode raw
  have hlen : (strBytes (primitiveText code raw)).length = fs := by
    rw [hbytes, List.length_cons, List.length_drop, length_encode, List.length_append,
      List.length_replicate]
    omega
  have hread : matterFromQb64 (primitiveText code raw) = .ok ⟨code, raw⟩ := by
    simp only [matterFromQb64, hlen]
    rw [hbytes]
    simp only [List.head?_cons, Option.map_some, Option.bind_some, hhard, List.take_succ_cons,
      List.take_zero, htext, hsizage, List.drop_succ_cons, List.drop_zero]
    rw [show 1 % 4 = 1 from rfl, primitiveRaw_encode (by omega) hgroups]
    simp
  refine ⟨?_, hlen⟩
  simp only [matterQb64, hread, if_true]

/-- **A signature of 64 bytes is encoded**, at index zero. -/
theorem indexerQb64_ok {raw : Bytes} (hraw : raw.length = 64) :
    indexerQb64 ⟨"A", 0, none, raw⟩ = .ok (primitiveText "AA" raw) := by
  have hcode : ("A" ++ textOf [digit 0] : String) = "AA" := by decide
  have hbytes : strBytes (primitiveText "AA" raw) =
      65 :: digit 0 :: (encode (List.replicate 2 0 ++ raw)).drop 2 := by
    rw [primitiveText, strBytes_append, show (strBytes "AA").length % 4 = 2 from rfl,
      strBytes_textOf (isAscii_drop (isAscii_encode _) 2)]
    rfl
  have hlen : ((encode (List.replicate 2 0 ++ raw)).drop 2).length = 86 := by
    rw [List.length_drop, length_encode, List.length_append, List.length_replicate, hraw]
  have hread : indexerFromQb64 (primitiveText "AA" raw) = .ok ⟨"A", 0, none, raw⟩ := by
    unfold indexerFromQb64
    rw [hbytes]
    simp only [digitValue_digit (show 0 < 64 by omega),
      primitiveRaw_encode (show 2 ≤ 2 by omega) (show (2 + raw.length) % 3 = 0 by omega), hlen]
    rfl
  simp only [indexerQb64, hcode, hread, if_true]

/-! ### JSON -/

theorem isPlainByte_iff {b : UInt8} : isPlainByte b = true ↔ 32 ≤ b ∧ b < 127 ∧ b ≠ 34 ∧ b ≠ 92 :=
  decide_eq_true_iff

theorem skip_cons {b : UInt8} {bs : Bytes} (h : b ∈ [34, 44, 91, 93, 123, 125, 58]) :
    skip (b :: bs) = b :: bs := by
  refine List.dropWhile_cons_of_neg ?_
  simp only [List.mem_cons, List.not_mem_nil, or_false] at h
  rcases h with rfl | rfl | rfl | rfl | rfl | rfl | rfl
  all_goals decide

theorem isAscii_of_plain {bs : Bytes} (h : bs.all isPlainByte = true) : isAscii bs = true := by
  rw [isAscii, List.all_eq_true]
  intro b hb
  have hlt := (isPlainByte_iff.1 (List.all_eq_true.1 h b hb)).2.1
  rw [UInt8.lt_iff_toNat_lt] at hlt
  rw [decide_eq_true_eq, UInt8.lt_iff_toNat_lt]
  change b.toNat < 127 at hlt
  change b.toNat < 128
  omega

/-- A string literal without anything to unescape. -/
theorem parseString_plain {bs : Bytes} (h : bs.all isPlainByte = true) (acc rest : Bytes) :
    parseString acc (bs ++ 34 :: rest) =
      (literalText (acc.reverse ++ bs)).map fun s => (s, rest) := by
  induction bs generalizing acc with
  | nil =>
      rw [List.append_nil, List.nil_append]
      cases rest with
      | nil => simp [parseString]
      | cons c rest => simp [parseString]
  | cons b bs ih =>
      rw [List.all_cons, Bool.and_eq_true, isPlainByte_iff] at h
      obtain ⟨⟨-, -, hquote, hslash⟩, hbs⟩ := h
      have hnext := ih hbs (b :: acc)
      rw [List.reverse_cons, List.append_assoc, List.singleton_append] at hnext
      cases bs with
      | nil =>
          rw [← hnext, List.cons_append, List.nil_append, parseString, if_neg hquote,
            if_neg hslash]
      | cons c bs =>
          rw [← hnext, List.cons_append, List.cons_append, parseString, if_neg hquote,
            if_neg hslash]

theorem literalText_plain {s : String} (h : isPlain s = true) :
    literalText (strBytes s) = some s := by
  have hascii : isAscii (strBytes s) = true := isAscii_of_plain h
  rw [literalText, if_pos hascii, textOf_strBytes hascii]

theorem parseString_text {s : String} (h : isPlain s = true) (rest : Bytes) :
    parseString [] (strBytes s ++ 34 :: rest) = some (s, rest) := by
  rw [parseString_plain h, List.reverse_nil, List.nil_append, literalText_plain h]
  rfl

/-- A text is read back. -/
theorem parseValue_string {s : String} (h : isPlain s = true) (fuel : ℕ) (rest : Bytes) :
    parseValue (fuel + 1) (print (.string s) ++ rest) = some (.string s, rest) := by
  rw [print, printString_of_plain h, List.cons_append, List.cons_append, List.append_assoc,
    List.singleton_append, parseValue, skip_cons (by decide)]
  simp only [if_true, parseString_text h, Option.map_some]

/-- The first byte of a text in print. -/
theorem print_string_eq {s : String} (h : isPlain s = true) (rest : Bytes) :
    print (.string s) ++ rest = 34 :: (strBytes s ++ 34 :: rest) := by
  rw [print, printString_of_plain h]
  simp

theorem printItems_cons (v w : Value) (vs : List Value) :
    printItems (v :: w :: vs) = print v ++ 44 :: printItems (w :: vs) := by
  rw [printItems]
  intro heq
  cases heq

/-- The items of a list of texts are read back. -/
theorem parseItems_texts {ss : List String} (hne : ss ≠ []) (h : ∀ s ∈ ss, isPlain s = true)
    {fuel : ℕ} (rest : Bytes)
    (hfuel : (printItems (ss.map .string) ++ 93 :: rest).length ≤ fuel) :
    parseItems fuel (printItems (ss.map .string) ++ 93 :: rest) =
      some (ss.map .string, rest) := by
  induction ss generalizing fuel with
  | nil => exact absurd rfl hne
  | cons s ss ih =>
      have hs := h s List.mem_cons_self
      cases ss with
      | nil =>
          rw [List.map_singleton, printItems] at hfuel ⊢
          have hlen : 2 ≤ fuel := by
            rw [print_string_eq hs, List.length_cons, List.length_append, List.length_cons] at hfuel
            omega
          obtain ⟨fuel, rfl⟩ := Nat.exists_eq_add_of_le' hlen
          rw [parseItems, parseValue_string hs]
          simp only [skip_cons (show (93 : UInt8) ∈ [34, 44, 91, 93, 123, 125, 58] by decide)]
      | cons t ss =>
          rw [List.map_cons, List.map_cons, printItems_cons, List.append_assoc,
            List.cons_append] at hfuel ⊢
          have hlen : 2 ≤ fuel ∧ (printItems ((t :: ss).map .string) ++ 93 :: rest).length ≤
              fuel - 1 := by
            rw [print_string_eq hs, List.length_cons, List.length_append, List.length_cons,
              List.length_cons] at hfuel
            rw [List.map_cons]
            omega
          obtain ⟨fuel, rfl⟩ := Nat.exists_eq_add_of_le' hlen.1
          have hrest := ih (by simp) (fun s' hs' => h s' (List.mem_cons_of_mem s hs'))
            (show _ ≤ fuel + 1 from hlen.2)
          rw [List.map_cons] at hrest
          rw [parseItems, parseValue_string hs]
          simp only [skip_cons (show (44 : UInt8) ∈ [34, 44, 91, 93, 123, 125, 58] by decide),
            hrest, Option.map_some]

/-- A plain value: a plain text, or a list of such. -/
inductive PlainValue : Value → Prop where
  | text {s : String} : isPlain s = true → PlainValue (.string s)
  | texts {ss : List String} : (∀ s ∈ ss, isPlain s = true) → PlainValue (textArray ss)

/-- A plain value is read back. -/
theorem parseValue_plain {v : Value} (h : PlainValue v) {fuel : ℕ} (rest : Bytes)
    (hfuel : (print v ++ rest).length ≤ fuel) :
    parseValue fuel (print v ++ rest) = some (v, rest) := by
  cases h with
  | @text s hs =>
      have hlen : 1 ≤ fuel := by
        rw [print_string_eq hs, List.length_cons] at hfuel
        omega
      obtain ⟨fuel, rfl⟩ := Nat.exists_eq_add_of_le' hlen
      exact parseValue_string hs fuel rest
  | @texts ss hss =>
      have hprint : print (textArray ss) ++ rest =
          91 :: (printItems (ss.map .string) ++ 93 :: rest) := by
        rw [textArray, print]
        simp
      rw [hprint] at hfuel ⊢
      have hlen : 1 ≤ fuel ∧ (printItems (ss.map .string) ++ 93 :: rest).length ≤ fuel - 1 := by
        rw [List.length_cons] at hfuel
        omega
      obtain ⟨fuel, rfl⟩ := Nat.exists_eq_add_of_le' hlen.1
      rw [parseValue, skip_cons (by decide)]
      cases ss with
      | nil =>
          rw [List.map_nil, printItems, List.nil_append]
          simp only [skip_cons (show (93 : UInt8) ∈ [34, 44, 91, 93, 123, 125, 58] by decide)]
          rfl
      | cons s ss =>
          have hitems := parseItems_texts (List.cons_ne_nil s ss) hss rest hlen.2
          -- the items begin with the quote of the first
          obtain ⟨more, hmore⟩ : ∃ more,
              printItems ((s :: ss).map .string) ++ 93 :: rest = 34 :: more := by
            have hs := hss s List.mem_cons_self
            cases ss with
            | nil =>
                rw [List.map_singleton, printItems]
                exact ⟨_, print_string_eq hs _⟩
            | cons t ss =>
                rw [List.map_cons, List.map_cons, printItems_cons, List.append_assoc]
                exact ⟨_, print_string_eq hs _⟩
          rw [hmore] at hitems ⊢
          rw [Nat.add_sub_cancel] at hitems
          simp only [skip_cons (show (34 : UInt8) ∈ [34, 44, 91, 93, 123, 125, 58] by decide)]
          rw [if_neg (by decide), if_pos trivial]
          change (parseItems fuel (34 :: more)).map _ = _
          rw [hitems]
          rfl

/-- Plain fields, no two of one name. -/
structure PlainFields (fields : Fields) : Prop where
  nodup : (fields.map Prod.fst).Nodup
  plain : ∀ f ∈ fields, isPlain f.1 = true ∧ PlainValue f.2

theorem PlainFields.tail {f : String × Value} {fields : Fields} (h : PlainFields (f :: fields)) :
    PlainFields fields :=
  ⟨(List.nodup_cons.1 h.nodup).2, fun g hg => h.plain g (List.mem_cons_of_mem f hg)⟩

/-- A new field goes last. -/
theorem insert_of_notMem {k : String} {v : Value} {fields : Fields}
    (h : k ∉ fields.map Prod.fst) : Fields.insert k v fields = fields ++ [(k, v)] := by
  induction fields with
  | nil => rfl
  | cons f fields ih =>
      rw [List.map_cons, List.mem_cons, not_or] at h
      rw [Fields.insert, if_neg (Ne.symm h.1), ih h.2]
      rfl

theorem printFields_cons (f g : String × Value) (fields : Fields) :
    printFields (f :: g :: fields) =
      printString f.1 ++ 58 :: (print f.2 ++ 44 :: printFields (g :: fields)) := by
  rw [printFields]
  intro heq
  cases heq

/-- A field is read off the front of the fields. -/
theorem parseFields_field {k : String} {v : Value} (hk : isPlain k = true) (hv : PlainValue v)
    (fuel : ℕ) (acc : Fields) {sep : UInt8} (hsep : sep ∈ [34, 44, 91, 93, 123, 125, 58])
    (rest : Bytes) (hfuel : (print v ++ sep :: rest).length ≤ fuel) :
    parseFields (fuel + 1) acc (printString k ++ 58 :: (print v ++ sep :: rest)) =
      match (v, sep :: rest) with
      | (x, 125 :: rest) => some (Fields.insert k x acc, rest)
      | (x, 44 :: bs) => parseFields fuel (Fields.insert k x acc) bs
      | _ => none := by
  have hkey : printString k ++ 58 :: (print v ++ sep :: rest) =
      34 :: (strBytes k ++ 34 :: (58 :: (print v ++ sep :: rest))) := by
    rw [printString_of_plain hk]
    simp
  have hvalue : skipAfter (parseValue fuel (print v ++ sep :: rest)) = some (v, sep :: rest) := by
    rw [parseValue_plain hv (sep :: rest) hfuel, skipAfter, Option.map_some, skip_cons hsep]
  rw [hkey, parseFields, skip_cons (by decide)]
  simp only [parseString_text hk, skipAfter, Option.map_some,
    skip_cons (show (58 : UInt8) ∈ [34, 44, 91, 93, 123, 125, 58] by decide)]
  unfold skipAfter at hvalue
  rw [hvalue]
  simp only [List.mem_cons, List.not_mem_nil, or_false] at hsep
  rcases hsep with rfl | rfl | rfl | rfl | rfl | rfl | rfl
  all_goals rfl

/-- Plain fields are read back, behind those that have been read. -/
theorem parseFields_plain {fields : Fields} (hne : fields ≠ []) (h : PlainFields fields)
    {acc : Fields} (hacc : ∀ f ∈ fields, f.1 ∉ acc.map Prod.fst) {fuel : ℕ} (rest : Bytes)
    (hfuel : (printFields fields ++ 125 :: rest).length ≤ fuel) :
    parseFields fuel acc (printFields fields ++ 125 :: rest) = some (acc ++ fields, rest) := by
  induction fields generalizing acc fuel with
  | nil => exact absurd rfl hne
  | cons f fields ih =>
      obtain ⟨k, v⟩ := f
      obtain ⟨hk, hv⟩ := h.plain (k, v) List.mem_cons_self
      have hnew := insert_of_notMem (v := v) (hacc (k, v) List.mem_cons_self)
      cases fields with
      | nil =>
          rw [printFields, List.append_assoc, List.cons_append] at hfuel ⊢
          have hlen : 1 ≤ fuel ∧ (print v ++ 125 :: rest).length ≤ fuel - 1 := by
            rw [List.length_append, List.length_cons] at hfuel
            omega
          obtain ⟨fuel, rfl⟩ := Nat.exists_eq_add_of_le' hlen.1
          rw [parseFields_field hk hv fuel acc (by decide) rest hlen.2]
          simp only [hnew]
      | cons g fields =>
          rw [printFields_cons, List.append_assoc, List.cons_append, List.append_assoc,
            List.cons_append] at hfuel ⊢
          have hlen : 1 ≤ fuel ∧
              (print v ++ 44 :: (printFields (g :: fields) ++ 125 :: rest)).length ≤ fuel - 1 := by
            rw [List.length_append, List.length_cons] at hfuel
            dsimp only at hfuel
            omega
          obtain ⟨fuel, rfl⟩ := Nat.exists_eq_add_of_le' hlen.1
          have hlater : ∀ f ∈ g :: fields, f.1 ∉ (acc ++ [(k, v)]).map Prod.fst := by
            intro f hf
            rw [List.map_append, List.mem_append, not_or]
            refine ⟨hacc f (List.mem_cons_of_mem _ hf), ?_⟩
            -- a later field has another name
            intro heq
            rw [List.map_singleton, List.mem_singleton] at heq
            have hnodup := (List.nodup_cons.1 h.nodup).1
            exact hnodup (heq ▸ List.mem_map_of_mem hf)
          have hshort : (printFields (g :: fields) ++ 125 :: rest).length ≤ fuel := by
            have hlong := hlen.2
            rw [List.length_append, List.length_cons] at hlong
            omega
          have hrest := ih (List.cons_ne_nil g fields) h.tail hlater hshort
          rw [parseFields_field hk hv fuel acc (by decide) _ hlen.2]
          simp only [hnew, hrest]
          simp

/-- **An object of plain fields is printed.** -/
theorem toVec_object_ok {fields : Fields} (hne : fields ≠ []) (h : PlainFields fields) :
    toVec (.object fields) = .ok (print (.object fields)) := by
  have hprint : print (.object fields) = 123 :: (printFields fields ++ 125 :: []) := by
    rw [print]
    simp
  have hnone : ∀ f ∈ fields, f.1 ∉ ([] : Fields).map Prod.fst := fun _ _ => List.not_mem_nil
  have hfields := parseFields_plain hne h hnone [] (Nat.le_succ _)
  rw [List.nil_append] at hfields
  obtain ⟨more, hmore⟩ : ∃ more, printFields fields ++ 125 :: [] = 34 :: more := by
    cases fields with
    | nil => exact absurd rfl hne
    | cons f fields =>
        have hk := (h.plain f List.mem_cons_self).1
        obtain ⟨k, v⟩ := f
        cases fields with
        | nil =>
            rw [printFields, printString_of_plain hk]
            exact ⟨_, rfl⟩
        | cons g fields =>
            rw [printFields_cons, printString_of_plain hk]
            exact ⟨_, rfl⟩
  have hread : fromSlice (print (.object fields)) = .ok (.object fields) := by
    have hvalue : parseValue ((34 :: more).length + 2) (123 :: 34 :: more) =
        some (.object fields, []) := by
      rw [parseValue, skip_cons (by decide)]
      simp only [skip_cons (show (34 : UInt8) ∈ [34, 44, 91, 93, 123, 125, 58] by decide)]
      rw [if_neg (by decide), if_neg (by decide), if_pos trivial]
      change (parseFields ((34 :: more).length + 1) [] (34 :: more)).map _ = _
      rw [← hmore, hfields]
      rfl
    rw [fromSlice, hprint, hmore, List.length_cons, hvalue]
    rfl
  rw [toVec, hread]
  simp

/-! ### Bodies -/

theorem length_print_texts {s : String} (h : isPlain s = true) :
    (print (textArray [s])).length = (strBytes s).length + 4 := by
  have hone := length_print_string (jsonLaws_toy checksumDigest) h
  rw [textArray, print, List.map_singleton, printItems]
  simp [hone]

theorem keys_insert_of_mem {k : String} {v : Value} {fields : Fields}
    (h : k ∈ fields.map Prod.fst) :
    (Fields.insert k v fields).map Prod.fst = fields.map Prod.fst := by
  induction fields with
  | nil => cases h
  | cons f fields ih =>
      obtain ⟨kf, vf⟩ := f
      by_cases hk : kf = k
      · simp [Fields.insert, hk]
      · rw [List.map_cons, List.mem_cons] at h
        have hrest := ih (h.resolve_left (Ne.symm hk))
        simp [Fields.insert, hk, hrest]

theorem mem_insert {k : String} {v : Value} {fields : Fields} {f : String × Value}
    (h : f ∈ Fields.insert k v fields) : f = (k, v) ∨ f ∈ fields := by
  induction fields with
  | nil => exact Or.inl (List.mem_singleton.1 h)
  | cons g fields ih =>
      obtain ⟨kg, vg⟩ := g
      by_cases hk : kg = k
      · rw [Fields.insert, if_pos hk] at h
        rcases List.mem_cons.1 h with rfl | h
        · exact Or.inl rfl
        · exact Or.inr (List.mem_cons_of_mem _ h)
      · rw [Fields.insert, if_neg hk] at h
        rcases List.mem_cons.1 h with rfl | h
        · exact Or.inr List.mem_cons_self
        · exact (ih h).imp_right (List.mem_cons_of_mem _)

/-- A plain field in place of another. -/
theorem PlainFields.insert {k : String} {v : Value} {fields : Fields} (h : PlainFields fields)
    (hk : k ∈ fields.map Prod.fst) (hv : PlainValue v) :
    PlainFields (Fields.insert k v fields) := by
  refine ⟨by rw [keys_insert_of_mem hk]; exact h.nodup, ?_⟩
  intro f hf
  rcases mem_insert hf with rfl | hf
  · obtain ⟨g, hg, rfl⟩ := List.mem_map.1 hk
    exact ⟨(h.plain g hg).1, hv⟩
  · exact h.plain f hf

theorem mem_keys_of_get {k : String} {fields : Fields} {v : Value}
    (h : Fields.get k fields = some v) : k ∈ fields.map Prod.fst := by
  induction fields with
  | nil => cases h
  | cons f fields ih =>
      obtain ⟨kf, vf⟩ := f
      by_cases hk : kf = k
      · rw [List.map_cons, hk]
        exact List.mem_cons_self
      · rw [Fields.get, if_neg hk] at h
        exact List.mem_cons_of_mem _ (ih h)

/-- A SAID in its places. -/
theorem PlainFields.fillSaid {fields : Fields} {i : String} (h : PlainFields fields)
    (hf : EventFields fields i) (sa : Bool) {said : String} (hsaid : isPlain said = true) :
    PlainFields (fillSaid "d" sa said fields) := by
  have hd := h.insert (mem_keys_of_get hf.said) (PlainValue.text hsaid)
  cases sa with
  | false => exact hd
  | true =>
      refine hd.insert ?_ (PlainValue.text hsaid)
      rw [keys_insert_of_mem (mem_keys_of_get hf.said)]
      exact mem_keys_of_get hf.pfx

theorem digestQb64_ok (data : Bytes) :
    digestQb64 lib "E" data = .ok (primitiveText "E" (checksumDigest data)) := by
  have hlen : (checksumDigest data).length = 32 := rfl
  have hgroups : (1 + (checksumDigest data).length) % 3 = 0 := by rw [hlen]
  have hfs : (1 + (checksumDigest data).length) / 3 * 4 = 44 := by rw [hlen]
  have hcode : strBytes "E" = [69] := by decide
  obtain ⟨htext, -⟩ := matterQb64_ok hcode (by decide) (by decide) rfl hgroups hfs
  exact mapError_eq_ok.2 htext

/-- A plain object is serialized. -/
theorem serialize_ok {fields : Fields} (hne : fields ≠ []) (h : PlainFields fields) :
    lib.serialize (.object fields) .json = .ok (print (.object fields)) :=
  mapError_eq_ok.2 (toVec_object_ok hne h)

/-! ### Sealed events -/

/-- The signer of a seed. -/
def signerOf (seed : Bytes) : Signer :=
  { raw := seed, code := "A", transferable := true, verfer := ⟨⟨"D", seed⟩⟩ }

theorem genuine_signerOf {seed : Bytes} (h : seed.length = 32) : (signerOf seed).Genuine lib := by
  simp only [Signer.Genuine, Signer.deriveVerfer, bind_eq_ok]
  refine ⟨.ed25519, rfl, ?_⟩
  simp only [bind_eq_ok, ensure_eq_ok, okOr_eq_ok]
  have hmatter : matterNew "D" seed = .ok ⟨"D", seed⟩ := if_pos (by simp [rawFits, h])
  refine ⟨⟨⟩, h, seed, rfl, ?_⟩
  change Verfer.new lib "D" seed = _
  simp only [Verfer.new, Verfer.validateCode, bind_eq_ok, ensure_eq_ok, mapError_eq_ok, pure_eq_ok]
  exact ⟨⟨⟩, by decide, ⟨"D", seed⟩, hmatter, rfl⟩

theorem signAll_ok {seed : Bytes} (h : seed.length = 32) (message : Bytes) :
    ∃ bytes, signAll lib message 0 [signerOf seed] = .ok bytes := by
  have hlen : (seed ++ checksumBytes 32 message).length = 64 := by
    rw [List.length_append, h]
    rfl
  have hraw : (signerOf seed).signRaw lib message = .ok (seed ++ checksumBytes 32 message) := by
    simp only [Signer.signRaw, bind_eq_ok]
    refine ⟨.ed25519, rfl, ?_⟩
    simp only [bind_eq_ok, ensure_eq_ok, okOr_eq_ok]
    exact ⟨⟨⟩, h, rfl⟩
  have hsign : (signerOf seed).signIndexed lib message 0 true =
      .ok ⟨⟨"A", 0, none, seed ++ checksumBytes 32 message⟩⟩ := by
    rw [Signer.signIndexed, hraw]
    rfl
  have hqb64 : Siger.qb64 lib ⟨⟨"A", 0, none, seed ++ checksumBytes 32 message⟩⟩ =
      .ok (primitiveText "AA" (seed ++ checksumBytes 32 message)) := by
    have hcesr : lib.cesr.indexerQb64 = indexerQb64 := rfl
    rw [Siger.qb64, mapError_eq_ok, hcesr]
    exact indexerQb64_ok hlen
  refine ⟨strBytes (primitiveText "AA" (seed ++ checksumBytes 32 message)) ++ [], ?_⟩
  simp only [signAll, bind_eq_ok, mapError_eq_ok, pure_eq_ok]
  exact ⟨_, hsign, _, hqb64, [], rfl, rfl⟩

/-- **An event of plain fields is sealed**, as long as it fits its version string. -/
theorem sealEvent_ok {fields : Fields} {i : String} (hf : EventFields fields i)
    (hplain : PlainFields fields) {seed : Bytes} (hseed : seed.length = 32) {n : ℕ}
    (hn : (print (.object (dummied "d" 44 fields))).length = n) (hfits : n < 2 ^ 24) :
    ∃ event, sealEvent lib fields [signerOf seed] = .ok event ∧ event.raw.length < 2 ^ 24 ∧
      event.said = primitiveText "E" (checksumDigest (print (.object (Fields.insert "v"
        (.string (versionStringOf n)) (dummied "d" 44 fields))))) := by
  have hjson := jsonLaws_toy checksumDigest
  obtain ⟨rest, hrest⟩ := hf.version
  have hv : Fields.get "v" fields = some (.string "KERI10JSON000000_") := by
    rw [hrest]
    rfl
  have hget : ∀ sa said, Fields.get "v" (fillSaid "d" sa said fields) =
      some (.string "KERI10JSON000000_") := by
    intro sa said
    rw [get_fillSaid_of_ne (by decide) (by decide), hv]
  have hne : ∀ {v : Value} {sa said}, Fields.insert "v" v (fillSaid "d" sa said fields) ≠ [] := by
    intro v sa said hnil
    have hself := Fields.get_insert_self "v" v (fillSaid "d" sa said fields)
    rw [hnil] at hself
    cases hself
  have hversion : PlainValue (.string (versionStringOf n)) := by
    rw [versionStringOf_eq]
    exact .text (plain_toVersionString rfl).1
  have hdummied : PlainFields (dummied "d" 44 fields) :=
    hplain.fillSaid hf _ (isPlain_dummyText 44).1
  -- the body is measured
  have hdummiedNe : dummied "d" 44 fields ≠ [] := by
    intro hnil
    have hself := hget (isSelfAddressing "d" fields) (dummyText 44)
    rw [dummied] at hnil
    rw [hnil] at hself
    cases hself
  have hfixed : fixVersionString lib fields =
      .ok (Fields.insert "v" (.string (versionStringOf n)) fields) :=
    (fixVersionString_eq_ok hf).2 ⟨_, toVec_object_ok hdummiedNe hdummied, by rw [hn]⟩
  -- its SAID is put in
  have hsized : PlainFields (Fields.insert "v" (.string (versionStringOf n))
      (dummied "d" 44 fields)) := hdummied.insert (mem_keys_of_get (hget _ _)) hversion
  have htext := digestQb64_ok (print (.object (Fields.insert "v" (.string (versionStringOf n))
    (dummied "d" 44 fields))))
  generalize hsaid : primitiveText "E" (checksumDigest (print (.object (Fields.insert "v"
    (.string (versionStringOf n)) (dummied "d" 44 fields))))) = said at htext
  have hcomputed := (computeSaid_sized digestLaws_toy hf (n := n)).2
    ⟨rfl, _, serialize_ok hne hsized, htext⟩
  -- and the whole is serialized
  obtain ⟨hsaidPlain, hsaidLen⟩ := digestLaws_toy.plain htext
  have hfilled := hplain.fillSaid hf (isSelfAddressing "d" fields) hsaidPlain
  have hlength : (print (.object (fillSaid "d" (isSelfAddressing "d" fields) said fields))).length =
      n := by
    rw [← hn, dummied]
    exact length_print_fillSaid hjson hsaidPlain (isPlain_dummyText 44).1
      (hsaidLen.trans (isPlain_dummyText 44).2.symm)
  have hbody := hfilled.insert (mem_keys_of_get (hget _ _)) hversion
  have hraw := toVec_object_ok hne hbody
  have hsize := length_sized hjson (hget (isSelfAddressing "d" fields) said) (by decide)
    (by decide) hlength hfits
  generalize print (.object (Fields.insert "v" (.string (versionStringOf n))
    (fillSaid "d" (isSelfAddressing "d" fields) said fields))) = raw at hraw hsize
  have hserder := (@serder_new_iff lib print _ _ n hjson
    ⟨raw, some (Version.defaultV1 .json n), .json, _⟩ (hget _ _) (by decide) (by decide) hlength
    hfits).2 ⟨hraw, rfl, rfl, rfl⟩
  obtain ⟨signatures, hsigs⟩ := signAll_ok hseed raw
  refine ⟨⟨said, raw, signatures, raw ++ strBytes "-AAB" ++ signatures⟩, ?_, hsize ▸ hfits, rfl⟩
  simp only [sealEvent, bind_eq_ok, mapError_eq_ok, pure_eq_ok]
  exact ⟨_, hfixed, ⟨_, _⟩, hcomputed, _, hserder, signatures, hsigs, "-A", rfl, ⟨"-A", 1⟩, rfl,
    "-AAB", rfl, rfl⟩

/-! ### Checksums -/

/-- A checksum takes in a byte. -/
def mix : ℕ → UInt8 → ℕ := fun acc b => (acc * 16777619 + b.toNat + 1) % 4294967291

theorem checksum_eq (message : Bytes) : checksum message = message.foldl mix 2166136261 := by
  unfold checksum mix
  rfl

theorem mix_lt (acc : ℕ) (b : UInt8) : mix acc b < 4294967291 := Nat.mod_lt _ (by decide)

/-- The factor is prime to the modulus, so a difference stays. -/
theorem mix_ne {x y : ℕ} (hx : x < 4294967291) (hy : y < 4294967291) (hne : x ≠ y) (b : UInt8) :
    mix x b ≠ mix y b := by
  intro heq
  have hmod : x * 16777619 ≡ y * 16777619 [MOD 4294967291] := by
    have hall : x * 16777619 + (b.toNat + 1) ≡ y * 16777619 + (b.toNat + 1) [MOD 4294967291] := by
      rw [← Nat.add_assoc, ← Nat.add_assoc]
      exact heq
    exact Nat.ModEq.add_right_cancel' _ hall
  have hcancel := Nat.ModEq.cancel_right_of_coprime (by decide) hmod
  exact hne (Nat.ModEq.eq_of_lt_of_lt hcancel hx hy)

theorem mix_foldl_ne {x y : ℕ} (hx : x < 4294967291) (hy : y < 4294967291) (hne : x ≠ y)
    (bs : Bytes) : bs.foldl mix x ≠ bs.foldl mix y := by
  induction bs generalizing x y with
  | nil => exact hne
  | cons b bs ih => exact ih (mix_lt x b) (mix_lt y b) (mix_ne hx hy hne b)

/-- Two bytes in one place give two checksums. -/
theorem checksum_ne (as bs : Bytes) {b c : UInt8} (hne : b ≠ c) :
    checksum (as ++ b :: bs) ≠ checksum (as ++ c :: bs) := by
  rw [checksum_eq, checksum_eq, List.foldl_append, List.foldl_append, List.foldl_cons,
    List.foldl_cons]
  generalize as.foldl mix 2166136261 = acc
  refine mix_foldl_ne (mix_lt acc b) (mix_lt acc c) ?_ bs
  intro heq
  have hall : acc * 16777619 + 1 + b.toNat ≡ acc * 16777619 + 1 + c.toNat [MOD 4294967291] := by
    rw [add_right_comm, add_right_comm _ 1 c.toNat]
    exact heq
  have hbytes := Nat.ModEq.add_left_cancel' _ hall
  have hb := b.toNat_lt
  have hc := c.toNat_lt
  exact hne (UInt8.toNat_inj.1 (Nat.ModEq.eq_of_lt_of_lt hbytes (by omega) (by omega)))

theorem checksum_lt (message : Bytes) : checksum message < 4294967291 := by
  rw [checksum_eq]
  induction message using List.reverseRecOn with
  | nil =>
      rw [List.foldl_nil]
      omega
  | append_singleton message b _ =>
      rw [List.foldl_append, List.foldl_cons, List.foldl_nil]
      exact mix_lt _ b

/-- Four bytes hold the checksum. -/
theorem bigEndian4_inj {m n : ℕ} (hm : m < 4294967296) (hn : n < 4294967296)
    (h : bigEndian4 m = bigEndian4 n) : m = n := by
  simp only [bigEndian4, List.cons.injEq, and_true, ← UInt8.toNat_inj, UInt8.toNat_ofNat'] at h
  omega

theorem checksum_eq_of_digest {m m' : Bytes} (h : checksumDigest m = checksumDigest m') :
    checksum m = checksum m' := by
  have hm := checksum_lt m
  have hm' := checksum_lt m'
  unfold checksumDigest checksumBytes at h
  have hbytes := (List.append_inj h rfl).1
  exact bigEndian4_inj (by omega) (by omega) hbytes

/-- Equal digest texts are of equal checksums. -/
theorem checksum_eq_of_text {m m' : Bytes}
    (h : primitiveText "E" (checksumDigest m) = primitiveText "E" (checksumDigest m')) :
    checksum m = checksum m' := by
  have hread : ∀ m : Bytes, matterFromQb64 (primitiveText "E" (checksumDigest m)) =
      .ok ⟨"E", checksumDigest m⟩ := fun m =>
    matterFromQb64_matterQb64 (mapError_eq_ok.1 (digestQb64_ok m))
  have hmatter := hread m
  rw [h, hread m', Except.ok.injEq, Matter.mk.injEq] at hmatter
  exact checksum_eq_of_digest hmatter.2.symm

end Keri.Toy
