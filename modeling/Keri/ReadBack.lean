/-
**Bodies are read back.**

A body is cut out of a stream by the size in its version string, and the version string is found by
looking for a protocol tag in the first bytes.  What stands before it in a serialized object is the
opening of its format: the heads of the object, of the name `v` and of the text.

* `Keri.opening` — the opening, in each of the three formats;
* `Keri.FormatLaws` — what is assumed of the serializers;
* `Keri.guarded_opening` — no protocol tag starts in an opening;
* `Keri.fromRaw_written` — a body that carries its own size first is read back;
* `Keri.from_raw_undoes_new` — **what `Serder.new` writes, `Serder.fromRaw` reads back, whatever
  follows it**;
* `Keri.readBack_iff` — and the same for a text that is longer than a version string.
-/

import Keri.VersionField
import Keri.VersionGrammar

set_option relaxedAutoImplicit false
set_option autoImplicit false

namespace Keri

open Outcome

/-! ### Openings -/

/-- The last `k` bytes of a number, the highest first. -/
def bigEndian : ℕ → ℕ → Bytes
  | 0, _ => []
  | k + 1, n => bigEndian k (n / 256) ++ [UInt8.ofNat n]

/-- The head of a CBOR item: its major type with a number. -/
def cborHead (major n : ℕ) : Bytes :=
  if n < 24 then [UInt8.ofNat (major * 32 + n)]
  else if n < 2 ^ 8 then UInt8.ofNat (major * 32 + 24) :: bigEndian 1 n
  else if n < 2 ^ 16 then UInt8.ofNat (major * 32 + 25) :: bigEndian 2 n
  else if n < 2 ^ 32 then UInt8.ofNat (major * 32 + 26) :: bigEndian 4 n
  else UInt8.ofNat (major * 32 + 27) :: bigEndian 8 n

/-- The head of a MessagePack map. -/
def msgPackMapHead (n : ℕ) : Bytes :=
  if n < 16 then [UInt8.ofNat (0x80 + n)]
  else if n < 2 ^ 16 then 0xde :: bigEndian 2 n
  else 0xdf :: bigEndian 4 n

/-- The head of a MessagePack text. -/
def msgPackStrHead (n : ℕ) : Bytes :=
  if n < 32 then [UInt8.ofNat (0xa0 + n)]
  else if n < 2 ^ 8 then 0xd9 :: bigEndian 1 n
  else if n < 2 ^ 16 then 0xda :: bigEndian 2 n
  else 0xdb :: bigEndian 4 n

/-- What stands before the text of the first field `v`, in an object of so many fields and for a
text of so many bytes. -/
def opening (kind : SerializationKind) (fields len : ℕ) : Bytes :=
  match kind with
  | .json => [123, 34, 118, 34, 58, 34]
  | .cbor => cborHead 5 fields ++ [0x61, 118] ++ cborHead 3 len
  | .msgPack => msgPackMapHead fields ++ [0xa1, 118] ++ msgPackStrHead len

/-- What is assumed of the serializers: what they write is read back; of an object whose first field
is a plain text `v`, they write the opening of the format, the text, and what depends only on the
other fields, which is at least a byte a field. -/
structure FormatLaws (X : Externals) (tail : SerializationKind → Fields → Bytes) : Prop where
  decode : ∀ {v : Value} {kind : SerializationKind} {bytes : Bytes},
    serializeValue X v kind = .ok bytes → deserializeValue X bytes kind = .ok v
  layout : ∀ {kind : SerializationKind} {vs : String} {rest : Fields} {bytes : Bytes},
    isPlain vs = true →
    serializeValue X (.object (("v", .string vs) :: rest)) kind = .ok bytes →
    bytes = opening kind (rest.length + 1) (strBytes vs).length ++ strBytes vs ++ tail kind rest
  length_tail : ∀ (kind : SerializationKind) (rest : Fields),
    rest.length ≤ (tail kind rest).length

theorem length_bigEndian (k n : ℕ) : (bigEndian k n).length = k := by
  induction k generalizing n with
  | zero => rfl
  | succ k ih => rw [bigEndian, List.length_append, ih, List.length_singleton]

theorem length_cborHead_le (major : ℕ) {m n : ℕ} (h : m ≤ n) :
    (cborHead major m).length ≤ (cborHead major n).length := by
  unfold cborHead
  split_ifs <;> simp only [List.length_cons, List.length_nil, length_bigEndian] <;> omega

theorem length_msgPackStrHead_le {m n : ℕ} (h : m ≤ n) :
    (msgPackStrHead m).length ≤ (msgPackStrHead n).length := by
  unfold msgPackStrHead
  split_ifs <;> simp only [List.length_cons, List.length_nil, length_bigEndian] <;> omega

/-- A longer text has no shorter opening. -/
theorem length_opening_le (kind : SerializationKind) (fields : ℕ) {m n : ℕ} (h : m ≤ n) :
    (opening kind fields m).length ≤ (opening kind fields n).length := by
  cases kind with
  | json => exact le_refl _
  | cbor =>
      have hhead := length_cborHead_le 3 h
      simp only [opening, List.length_append]
      omega
  | msgPack =>
      have hhead := length_msgPackStrHead_le h
      simp only [opening, List.length_append]
      omega

theorem sniffKind_cborHead (n : ℕ) (more : Bytes) :
    sniffKind (cborHead 5 n ++ more) = .ok .cbor := by
  unfold cborHead
  split_ifs with h
  · interval_cases n <;> rfl
  all_goals rfl

theorem sniffKind_msgPackMapHead (n : ℕ) (more : Bytes) :
    sniffKind (msgPackMapHead n ++ more) = .ok .msgPack := by
  unfold msgPackMapHead
  split_ifs with h
  · interval_cases n <;> rfl
  all_goals rfl

/-- The first byte tells the format. -/
theorem sniffKind_opening (kind : SerializationKind) (fields len : ℕ) (more : Bytes) :
    sniffKind (opening kind fields len ++ more) = .ok kind := by
  cases kind with
  | json => rfl
  | cbor =>
      rw [opening, List.append_assoc, List.append_assoc]
      exact sniffKind_cborHead fields _
  | msgPack =>
      rw [opening, List.append_assoc, List.append_assoc]
      exact sniffKind_msgPackMapHead fields _

/-! ### Finding the version string -/

/-- A head of few bytes before one that is no capital, or one whose high byte is zero. -/
theorem guarded_head {n : ℕ} {first m t : UInt8} (hn : n < 2 ^ 24) (hfirst : NoCapital first)
    (hm : NoCapital m) (ht : NoCapital t) :
    Guarded ([first] ++ [m, 118] ++ [t]) ∧
    Guarded (first :: bigEndian 1 n ++ [m, 118] ++ [t]) ∧
    Guarded (first :: bigEndian 2 n ++ [m, 118] ++ [t]) ∧
    Guarded (first :: bigEndian 4 n ++ [m, 118] ++ [t]) := by
  have hhigh : UInt8.ofNat (n / 256 / 256 / 256) = 0 := by
    rw [Nat.div_div_eq_div_mul, Nat.div_div_eq_div_mul, Nat.div_eq_of_lt (by omega)]
    rfl
  have hzero : NoCapital 0 := by unfold NoCapital; decide
  have hname : NoCapital 118 := by unfold NoCapital; decide
  simp [Guarded, bigEndian, hhigh, hfirst, hm, ht, hzero, hname]

/-- The opening of an object of fewer than 2^24 fields before a version string of seventeen bytes is
guarded, and short. -/
theorem guarded_opening (kind : SerializationKind) {fields : ℕ} (h : fields < 2 ^ 24) :
    Guarded (opening kind fields keriVerFullsize) ∧
      (opening kind fields keriVerFullsize).length ≤ 9 := by
  have hcapital : ∀ b : UInt8, 90 < b.toNat → NoCapital b := by
    intro b hb hle
    have hlt : b.toNat ≤ 90 := UInt8.le_iff_toNat_le.1 hle.2
    omega
  cases kind with
  | json =>
      have hquote : NoCapital 34 := by unfold NoCapital; decide
      have hcolon : NoCapital 58 := by unfold NoCapital; decide
      simp [opening, Guarded, hquote, hcolon]
  | cbor =>
      have hsmall : fields < 24 → NoCapital (UInt8.ofNat (5 * 32 + fields)) := by
        intro hlt
        refine hcapital _ ?_
        rw [UInt8.toNat_ofNat_of_lt' (by simp only [UInt8.size]; omega)]
        omega
      have hhead := fun first hfirst =>
        @guarded_head fields first 0x61 113 h hfirst (hcapital _ (by decide))
          (hcapital _ (by decide))
      have htext : cborHead 3 keriVerFullsize = [113] := by rfl
      rw [opening, htext, cborHead]
      split_ifs with h₁ h₂ h₃ h₄
      · exact ⟨(hhead _ (hsmall h₁)).1, by simp⟩
      · exact ⟨(hhead _ (hcapital _ (by decide))).2.1, by simp [length_bigEndian]⟩
      · exact ⟨(hhead _ (hcapital _ (by decide))).2.2.1, by simp [length_bigEndian]⟩
      · exact ⟨(hhead _ (hcapital _ (by decide))).2.2.2, by simp [length_bigEndian]⟩
      · omega
  | msgPack =>
      have hsmall : fields < 16 → NoCapital (UInt8.ofNat (0x80 + fields)) := by
        intro hlt
        refine hcapital _ ?_
        rw [UInt8.toNat_ofNat_of_lt' (by simp only [UInt8.size]; omega)]
        omega
      have hhead := fun first hfirst =>
        @guarded_head fields first 0xa1 0xb1 h hfirst (hcapital _ (by decide))
          (hcapital _ (by decide))
      have htext : msgPackStrHead keriVerFullsize = [0xb1] := by rfl
      rw [opening, htext, msgPackMapHead]
      split_ifs with h₁ h₂
      · exact ⟨(hhead _ (hsmall h₁)).1, by simp⟩
      · exact ⟨(hhead _ (hcapital _ (by decide))).2.2.1, by simp [length_bigEndian]⟩
      · exact ⟨(hhead _ (hcapital _ (by decide))).2.2.2, by simp [length_bigEndian]⟩

/-! ### A body that carries its own size -/

variable {X : Externals} {tail : SerializationKind → Fields → Bytes}

/-- How long an object is whose first field is a plain text `v`. -/
theorem length_layout (hX : FormatLaws X tail) {kind : SerializationKind} {vs : String}
    {rest : Fields} {bytes : Bytes} (hplain : isPlain vs = true)
    (h : serializeValue X (.object (("v", .string vs) :: rest)) kind = .ok bytes) :
    bytes.length = (opening kind (rest.length + 1) (strBytes vs).length).length +
      (strBytes vs).length + (tail kind rest).length := by
  rw [hX.layout hplain h, List.length_append, List.length_append]

/-- Of two such objects that differ in the text, the one with the longer text is the longer. -/
theorem length_lt_of_layout (hX : FormatLaws X tail) {kind : SerializationKind} {vs vs' : String}
    {rest : Fields} {bytes bytes' : Bytes} (hplain : isPlain vs = true)
    (hplain' : isPlain vs' = true)
    (h : serializeValue X (.object (("v", .string vs) :: rest)) kind = .ok bytes)
    (h' : serializeValue X (.object (("v", .string vs') :: rest)) kind = .ok bytes')
    (hlt : (strBytes vs).length < (strBytes vs').length) : bytes.length < bytes'.length := by
  have hopening := length_opening_le kind (rest.length + 1) hlt.le
  rw [length_layout hX hplain h, length_layout hX hplain' h']
  omega

theorem length_eq_of_layout (hX : FormatLaws X tail) {kind : SerializationKind} {vs vs' : String}
    {rest : Fields} {bytes bytes' : Bytes} (hplain : isPlain vs = true)
    (hplain' : isPlain vs' = true)
    (h : serializeValue X (.object (("v", .string vs) :: rest)) kind = .ok bytes)
    (h' : serializeValue X (.object (("v", .string vs') :: rest)) kind = .ok bytes')
    (heq : (strBytes vs).length = (strBytes vs').length) : bytes.length = bytes'.length := by
  rw [length_layout hX hplain h, length_layout hX hplain' h', heq]

/-- A version string that is the first field of a body is found, and so is the format. -/
theorem extractVersionFromRaw_written (hX : FormatLaws X tail) {kind : SerializationKind}
    {v : Version} {rest : Fields} {raw : Bytes} (hv : v.Wellformed) (hsize : v.size < 2 ^ 24)
    (hprotocol : strBytes v.protocol ∈ protocolTags) (hlt : raw.length < 2 ^ 24)
    (hraw : serializeValue X (.object (("v", .string v.toVersionString) :: rest)) kind = .ok raw) :
    extractVersionFromRaw raw = some v ∧ sniffKind raw = .ok kind := by
  have hplain := isPlain_versionString hprotocol
  have hlen := (Version.length_toVersionString hv).1 hsize
  have hbytes := hX.layout hplain hraw
  have hfields : rest.length + 1 < 2 ^ 24 := by
    have htail := hX.length_tail kind rest
    rw [length_layout hX hplain hraw, hlen, keriVerFullsize] at hlt
    omega
  rw [hlen] at hbytes
  obtain ⟨hguarded, hshort⟩ := guarded_opening kind hfields
  rw [hbytes, List.append_assoc]
  exact ⟨extractVersionFromRaw_guarded hguarded hshort hv hsize hprotocol _,
    sniffKind_opening kind _ _ _⟩

/-- **A body that carries its own size in its first field is read back whatever follows it.** -/
theorem fromRaw_written (hX : FormatLaws X tail) {v : Version} {rest : Fields} {s : Serder}
    (hv : v.Wellformed) (hprotocol : strBytes v.protocol ∈ protocolTags)
    (hlt : s.raw.length < 2 ^ 24) (hsize : v.size = s.raw.length)
    (hsad : s.sad = .object (("v", .string v.toVersionString) :: rest))
    (hraw : serializeValue X s.sad s.kind = .ok s.raw) (hversion : s.version = some v)
    (more : Bytes) : Serder.fromRaw X (s.raw ++ more) = .ok s := by
  have hdecode := hX.decode hraw
  rw [hsad] at hraw
  obtain ⟨hscan, hsniff⟩ :=
    extractVersionFromRaw_written hX hv (hsize.symm ▸ hlt) hprotocol hlt hraw
  have hne : s.raw ≠ [] := by
    intro hnil
    rw [hnil] at hsniff
    cases hsniff
  have hread : Serder.fromRaw X s.raw = .ok s := by
    refine Serder.fromRaw_eq_ok.2 ⟨hne, hsniff, ?_, ?_, hdecode, ?_⟩
    · rw [hscan, Option.map_some, Option.getD_some, hsize]
    · rw [hscan, Option.map_some, Option.getD_some, hsize, List.take_length]
    · rw [hscan, hversion, Option.some_or]
  exact Serder.fromRaw_append hread hscan more

/-! ### What is written is read back -/

/-- The text is a version string, of seventeen bytes, of one of the three protocols. -/
def ValidVersionString (vs : String) : Prop :=
  (strBytes vs).length = keriVerFullsize ∧
    ∃ ver, Version.parseStr vs = .ok ver ∧ ver.protocol ∈ ["KERI", "ACDC", "SAID"]

theorem mem_protocolTags {protocol : String} (h : protocol ∈ ["KERI", "ACDC", "SAID"]) :
    strBytes protocol ∈ protocolTags := by
  simp only [List.mem_cons, List.not_mem_nil, or_false] at h
  rcases h with rfl | rfl | rfl <;> decide +kernel

theorem isPlainByte_of_isHex {b : UInt8} (h : VersionGrammar.IsHex b) : isPlainByte b = true := by
  have hall : ∀ n : Fin 256, VersionGrammar.IsHex (UInt8.ofFin n) →
      isPlainByte (UInt8.ofFin n) = true := by decide +kernel
  exact hall b.toFin h

/-- The fields of seventeen bytes. -/
theorem versionFields {bytes : Bytes} (hlen : bytes.length = keriVerFullsize) :
    bytes = bytes.take 4 ++ ([bytes.getD 4 0] ++ ([bytes.getD 5 0] ++ ((bytes.drop 6).take 4 ++
      (VersionGrammar.sizeField bytes ++ [bytes.getD 16 0])))) := by
  have hone : ∀ i, i < bytes.length → bytes.drop i = [bytes.getD i 0] ++ bytes.drop (i + 1) := by
    intro i hi
    rw [List.drop_eq_getElem_cons hi, List.getD_eq_getElem _ _ hi, List.singleton_append]
  have hend : bytes.drop 17 = [] := List.drop_eq_nil_of_le hlen.le
  have hlast := hone 16 (by rw [hlen]; decide)
  rw [hend, List.append_nil] at hlast
  have hjoin : ∀ i k, (bytes.drop i).take k ++ bytes.drop (i + k) = bytes.drop i := by
    intro i k
    rw [← List.drop_drop, List.take_append_drop]
  rw [← hlast, VersionGrammar.sizeField, hjoin 10 6, hjoin 6 4, ← hone 5 (by rw [hlen]; decide),
    ← hone 4 (by rw [hlen]; decide), List.take_append_drop]

/-- A version string is plain, field by field. -/
theorem ValidVersionString.isPlain {vs : String} (h : ValidVersionString vs) :
    isPlain vs = true := by
  obtain ⟨hlen, ver, hver, hprotocol⟩ := h
  obtain ⟨tag, hframed, hsize⟩ := VersionGrammar.parseStr_iff.1 hver
  have hfour : ((strBytes vs).take 4).all isPlainByte = true := by
    have hascii : isAscii ((strBytes vs).take 4) = true := by
      rw [isAscii, List.all_eq_true]
      intro b hb
      have hmem : b ∈ (strBytes vs).take 17 := List.take_subset_take_left _ (by omega) hb
      exact decide_eq_true (hframed.ascii b hmem)
    rw [protocol_of_parseStr hver] at hprotocol
    have htags := mem_protocolTags hprotocol
    rw [strBytes_textOf hascii] at htags
    exact isPlain_of_mem_protocolTags htags
  have htag : (((strBytes vs).drop 6).take 4).all isPlainByte = true := by
    rw [hframed.tag]
    cases tag <;> decide
  have hdigits : (VersionGrammar.sizeField (strBytes vs)).all isPlainByte = true := by
    rw [List.all_eq_true]
    rcases hsize with ⟨hd, -⟩ | ⟨⟨ds, heq, hd⟩, -⟩
    · exact fun b hb => isPlainByte_of_isHex (hd b hb)
    · rw [heq]
      exact List.forall_mem_cons.2 ⟨by decide, fun b hb => isPlainByte_of_isHex (hd b hb)⟩
  rw [Keri.isPlain, versionFields hlen]
  simp only [List.all_append, List.all_cons, List.all_nil, hfour, htag, hdigits,
    isPlainByte_of_isHex hframed.major, isPlainByte_of_isHex hframed.minor, hframed.terminator,
    Bool.and_true, Bool.true_and]
  decide

section

variable {kind : SerializationKind} {vs : String} {rest : Fields} {s : Serder} {ver : Version}

/-- What `Serder.new` makes of an object whose first field is a text that is read as a version. -/
theorem new_first_eq_ok (hnew : Serder.new X kind (.object (("v", .string vs) :: rest)) = .ok s) :
    ∃ raw₀ raw₁ : Bytes,
      serializeValue X (.object (("v", .string vs) :: rest)) kind = .ok raw₀ ∧
      serializeValue X (.object (("v", .string
        (Serder.versionFor kind vs raw₀.length).toVersionString) :: rest)) kind = .ok raw₁ ∧
      s.version = some (Serder.versionFor kind vs raw₁.length) ∧
      s.sad = .object (("v", .string
        (Serder.versionFor kind vs raw₁.length).toVersionString) :: rest) ∧
      serializeValue X s.sad kind = .ok s.raw ∧ s.kind = kind := by
  have hv : versionText (.object (("v", .string vs) :: rest)) = some vs := by
    rw [versionText, Value.get_object, Fields.get, if_pos rfl]
    rfl
  obtain ⟨raw₀, raw₁, hraw₀, hraw₁, hversion, hsad, hraw, hkind⟩ := (Serder.new_eq_ok hv).1 hnew
  simp only [versionFor_size, setVersionField, Fields.insert, if_true] at hraw₁ hversion hsad
  exact ⟨raw₀, raw₁, hraw₀, hraw₁, hversion, hsad, hraw, hkind⟩

theorem protocol_versionFor (hver : Version.parseStr vs = .ok ver) (n : ℕ) :
    (Serder.versionFor kind vs n).protocol = ver.protocol := by
  rw [Serder.versionFor, hver]

theorem versionFor_protocol (hver : Version.parseStr vs = .ok ver)
    (hprotocol : ver.protocol ∈ ["KERI", "ACDC", "SAID"]) (kind : SerializationKind) (n : ℕ) :
    strBytes (Serder.versionFor kind vs n).protocol ∈ protocolTags := by
  rw [protocol_versionFor hver]
  exact mem_protocolTags hprotocol

/-- The version string of a size of six digits has seventeen bytes, and one of a larger size has
more. -/
theorem length_versionFor (kind : SerializationKind) (vs : String) (n : ℕ) :
    (n < 2 ^ 24 →
      (strBytes (Serder.versionFor kind vs n).toVersionString).length = keriVerFullsize) ∧
    (2 ^ 24 ≤ n →
      keriVerFullsize < (strBytes (Serder.versionFor kind vs n).toVersionString).length) := by
  have hlen := Version.length_toVersionString (wellformed_versionFor kind vs n)
  rwa [size_versionFor] at hlen

/-- What is written for a value of more than six digits of size is not read back: the size in it is
that of a longer body, or has more digits than can be read. -/
theorem sizeFits_of_readBack (hX : FormatLaws X tail) (hver : Version.parseStr vs = .ok ver)
    (hprotocol : ver.protocol ∈ ["KERI", "ACDC", "SAID"])
    (hnew : Serder.new X kind (.object (("v", .string vs) :: rest)) = .ok s)
    (hlt : s.raw.length < 2 ^ 24) (hread : Serder.fromRaw X s.raw = .ok s) :
    SizeFits X kind (.object (("v", .string vs) :: rest)) := by
  obtain ⟨raw₀, raw₁, hraw₀, hraw₁, hversion, hsad, hraw, hkind⟩ := new_first_eq_ok hnew
  have htags := versionFor_protocol hver hprotocol kind
  have hwell := wellformed_versionFor kind vs
  have hplain := fun n => isPlain_versionString (htags n)
  rw [hsad] at hraw
  intro raw hgiven
  obtain rfl := Except.ok.inj (hraw₀.symm.trans hgiven)
  by_contra hge
  obtain ⟨-, -, hlen, -, -, hfound⟩ := Serder.fromRaw_eq_ok.1 hread
  rw [hversion] at hfound
  by_cases hlt₁ : raw₁.length < 2 ^ 24
  · -- the size that is written is that of the longer body
    have hscan := (extractVersionFromRaw_written hX (hwell _) (by rwa [size_versionFor])
      (htags _) hlt hraw).1
    rw [hscan, Option.map_some, Option.getD_some, size_versionFor] at hlen
    have hlonger := (length_versionFor kind vs raw₀.length).2 (Nat.le_of_not_lt hge)
    rw [← (length_versionFor kind vs raw₁.length).1 hlt₁] at hlonger
    have hshorter := length_lt_of_layout hX (hplain _) (hplain _) hraw hraw₁ hlonger
    omega
  · -- the size that is written has more digits than can be read
    cases hscan : extractVersionFromRaw s.raw with
    | some v =>
        rw [hscan, Option.some_or, Option.some_inj] at hfound
        rw [hscan, Option.map_some, Option.getD_some, ← hfound, size_versionFor] at hlen
        omega
    | none =>
        rw [hscan, Option.none_or, hsad] at hfound
        obtain ⟨text, htext, hparse⟩ := fieldVersion_eq_some.1 hfound.symm
        have hfirst : text = (Serder.versionFor kind vs raw₁.length).toVersionString := by
          rw [versionText, Value.get_object, Fields.get, if_pos rfl] at htext
          exact (Option.some_inj.1 htext).symm
        rw [hfirst] at hparse
        have hsize := Version.size_lt_of_parseStr (hwell _) hparse
        rw [size_versionFor] at hsize
        exact hlt₁ hsize

/-- What is written for a value of at most six digits of size is read back, whatever follows. -/
theorem readBack_of_sizeFits (hX : FormatLaws X tail) (hver : Version.parseStr vs = .ok ver)
    (hprotocol : ver.protocol ∈ ["KERI", "ACDC", "SAID"])
    (hnew : Serder.new X kind (.object (("v", .string vs) :: rest)) = .ok s)
    (hlt : s.raw.length < 2 ^ 24) (hfits : SizeFits X kind (.object (("v", .string vs) :: rest)))
    (more : Bytes) : Serder.fromRaw X (s.raw ++ more) = .ok s := by
  obtain ⟨raw₀, raw₁, hraw₀, hraw₁, hversion, hsad, hraw, hkind⟩ := new_first_eq_ok hnew
  have htags := versionFor_protocol hver hprotocol kind
  have hplain := fun n => isPlain_versionString (htags n)
  have hraw' := hraw
  rw [hsad] at hraw'
  have hlt₀ := (length_versionFor kind vs raw₀.length).1 (hfits raw₀ hraw₀)
  have hlt₁ : raw₁.length < 2 ^ 24 := by
    by_contra hge
    have hlonger := (length_versionFor kind vs raw₁.length).2 (Nat.le_of_not_lt hge)
    rw [← hlt₀] at hlonger
    have hraw₁lt := length_lt_of_layout hX (hplain _) (hplain _) hraw₁ hraw' hlonger
    omega
  have hsame : raw₁.length = s.raw.length := length_eq_of_layout hX (hplain _) (hplain _) hraw₁
    hraw' (hlt₀.trans ((length_versionFor kind vs raw₁.length).1 hlt₁).symm)
  refine fromRaw_written hX (wellformed_versionFor kind vs _) (htags _) hlt ?_ hsad ?_ hversion more
  · rw [size_versionFor, hsame]
  · rw [hkind]
    exact hraw

/-- A body is read back exactly when the value that it was made of had a size of six digits. -/
theorem readBack_iff (hX : FormatLaws X tail) (hver : Version.parseStr vs = .ok ver)
    (hprotocol : ver.protocol ∈ ["KERI", "ACDC", "SAID"])
    (hnew : Serder.new X kind (.object (("v", .string vs) :: rest)) = .ok s)
    (hlt : s.raw.length < 2 ^ 24) :
    (∀ more, Serder.fromRaw X (s.raw ++ more) = .ok s) ↔
      SizeFits X kind (.object (("v", .string vs) :: rest)) := by
  constructor
  · intro hread
    have halone := hread []
    rw [List.append_nil] at halone
    exact sizeFits_of_readBack hX hver hprotocol hnew hlt halone
  · exact readBack_of_sizeFits hX hver hprotocol hnew hlt

/-- The value that carries a version string has a size of six digits when the body has. -/
theorem sizeFits_of_valid (hX : FormatLaws X tail) (hvalid : ValidVersionString vs)
    (hnew : Serder.new X kind (.object (("v", .string vs) :: rest)) = .ok s)
    (hlt : s.raw.length < 2 ^ 24) : SizeFits X kind (.object (("v", .string vs) :: rest)) := by
  obtain ⟨hlen, ver, hver, hprotocol⟩ := id hvalid
  obtain ⟨raw₀, raw₁, hraw₀, -, -, hsad, hraw, -⟩ := new_first_eq_ok hnew
  intro raw hgiven
  obtain rfl := Except.ok.inj (hraw₀.symm.trans hgiven)
  have htags : strBytes (Serder.versionFor kind vs raw₁.length).protocol ∈ protocolTags := by
    rw [protocol_versionFor hver]
    exact mem_protocolTags hprotocol
  have hplain := isPlain_versionString htags
  rw [hsad] at hraw
  have hle : (strBytes vs).length ≤
      (strBytes (Serder.versionFor kind vs raw₁.length).toVersionString).length := by
    obtain ⟨hshort, hlong⟩ :=
      Version.length_toVersionString (wellformed_versionFor kind vs raw₁.length)
    rw [hlen]
    rcases Nat.lt_or_ge (Serder.versionFor kind vs raw₁.length).size (2 ^ 24) with h | h
    · exact (hshort h).ge
    · exact (hlong h).le
  rcases Nat.lt_or_eq_of_le hle with h | h
  · exact (length_lt_of_layout hX hvalid.isPlain hplain hraw₀ hraw h).trans hlt
  · exact (length_eq_of_layout hX hvalid.isPlain hplain hraw₀ hraw h).trans_lt hlt

/-- **Deserializing undoes serializing, whatever follows.**  A body of fewer than 2^24 bytes that
`Serder.new` makes of an object whose first field holds a version string is read back as it is; of
an object whose first field holds a longer text that is read as a version, it is read back exactly
when the object itself is serialized in fewer than 2^24 bytes. -/
theorem from_raw_undoes_new (hX : FormatLaws X tail) (hver : Version.parseStr vs = .ok ver)
    (hprotocol : ver.protocol ∈ ["KERI", "ACDC", "SAID"])
    (hnew : Serder.new X kind (.object (("v", .string vs) :: rest)) = .ok s)
    (hlt : s.raw.length < 2 ^ 24) :
    ((strBytes vs).length = keriVerFullsize →
      ∀ more, Serder.fromRaw X (s.raw ++ more) = .ok s) ∧
    ((∀ more, Serder.fromRaw X (s.raw ++ more) = .ok s) ↔
      SizeFits X kind (.object (("v", .string vs) :: rest))) := by
  have hiff := readBack_iff hX hver hprotocol hnew hlt
  refine ⟨?_, hiff⟩
  intro hlen
  exact hiff.2 (sizeFits_of_valid hX ⟨hlen, ver, hver, hprotocol⟩ hnew hlt)

end

/-! ### An instance -/

namespace Toy

/-- What compact JSON writes behind the text of the first field. -/
def formatTail (_ : SerializationKind) (rest : Fields) : Bytes :=
  34 :: (rest.flatMap fun f => 44 :: (print (.string f.1) ++ 58 :: print f.2)) ++ [125]

end Toy

theorem intercalate_cons_flatMap {α : Type} (sep x : List α) (xs : List (List α)) :
    sep.intercalate (x :: xs) = x ++ xs.flatMap fun y => sep ++ y := by
  induction xs generalizing x with
  | nil => simp
  | cons y ys ih =>
      rw [List.intercalate_cons_of_ne_nil (List.cons_ne_nil y ys), ih, List.flatMap_cons,
        List.append_assoc, List.append_assoc]

theorem formatLaws_toy (digest : Bytes → Bytes) :
    FormatLaws (Toy.externals digest) Toy.formatTail := by
  have hjson := jsonLaws_toy digest
  have hnone : ∀ {v : Value} {kind : SerializationKind} {bytes : Bytes}, kind ≠ .json →
      serializeValue (Toy.externals digest) v kind ≠ .ok bytes := by
    intro v kind bytes hkind h
    simp only [serializeValue, Externals.serialize] at h
    cases kind with
    | json => exact hkind rfl
    | cbor => cases mapError_eq_ok.1 h
    | msgPack => cases mapError_eq_ok.1 h
  constructor
  · intro v kind bytes h
    by_cases hkind : kind = .json
    · subst hkind
      exact mapError_eq_ok.2 (hjson.decode (mapError_eq_ok.1 h))
    · exact absurd h (hnone hkind)
  · intro kind vs rest bytes hplain h
    by_cases hkind : kind = .json
    · subst hkind
      have hv : strBytes "v" = [118] := by decide
      have hname : isPlain "v" = true := by decide
      rw [hjson.toVec_eq (mapError_eq_ok.1 h), hjson.object, List.map_cons,
        intercalate_cons_flatMap, hjson.string hplain, hjson.string hname, hv]
      simp [opening, Toy.formatTail, List.flatMap_map]
    · exact absurd h (hnone hkind)
  · intro kind rest
    induction rest with
    | nil => exact Nat.zero_le _
    | cons f rest ih =>
        simp only [Toy.formatTail, List.flatMap_cons, List.length_cons, List.length_append] at ih ⊢
        omega

theorem read_back_toy : ∃ s, Serder.new Toy.lib .json toyVersioned = .ok s ∧
    ∀ more, Serder.fromRaw Toy.lib (s.raw ++ more) = .ok s := by
  obtain ⟨s, hs, hlt⟩ := exists_ok_of_any (x := Serder.new Toy.lib .json toyVersioned)
    (p := fun s => decide (s.raw.length < 2 ^ 24)) (by decide +kernel)
  obtain ⟨ver, hver, hkeri⟩ := exists_ok_of_any (x := Version.parseStr "KERI10JSON000000_")
    (p := fun ver => decide (ver.protocol ∈ ["KERI", "ACDC", "SAID"])) (by decide +kernel)
  have hX : FormatLaws Toy.lib Toy.formatTail := formatLaws_toy Toy.checksumDigest
  exact ⟨s, hs, (from_raw_undoes_new hX hver (of_decide_eq_true hkeri) hs
    (of_decide_eq_true hlt)).1 (by decide)⟩

end Keri
