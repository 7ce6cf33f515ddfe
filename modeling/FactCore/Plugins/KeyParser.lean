import Mathlib.Data.List.Infix
import FactCore.Lib.Bytes
import FactCore.Lib.MapM
import FactCore.Lib.Utf8

/-!
# DER keys and certificates

`src/src/plugins/analysis/crypto_material/internal/key_parser.py`: a signature match tells where a
DER field may start. The field is cut out of the file and given to OpenSSL.

A DER field is a tag, a length and the content. A length below 128 is one byte. Another length is
the number of its bytes plus 128, and then these bytes. The code reads the bytes as a signed number,
and knows numbers of one, two and four bytes only.

Results:
1. `getStartAndSize_eq_ok_iff`: when the code reads a length, and which.
2. `ReadsAs.of_derFieldAt`: what it reads for a complete field.
3. `derExtraction_iff`: when the code cuts out what it should and raises nothing.
-/

namespace FactCore

/-! ## 1. The code -/

/-- The exceptions of the parser. -/
inductive ParserException
  | indexError
  | structError
  | typeError
  | attributeError
  | openSslError
  deriving DecidableEq, Repr

/-- The formats of `struct`: signed numbers, with the highest byte first. -/
inductive StructFormat
  | b
  | h
  | i
  deriving DecidableEq, Repr

/-- The bytes of a number. -/
def StructFormat.calcsize : StructFormat → Nat
  | .b => 1
  | .h => 2
  | .i => 4

/-- `struct.unpack` of one number. Without a format it raises a `TypeError`. -/
def structUnpack (formString : Option StructFormat) (buffer : List UInt8) : Except ParserException Int :=
  match formString with
  | none => .error .typeError
  | some format =>
    if buffer.length = format.calcsize then .ok (signedBigEndian buffer) else .error .structError

/-- `_determine_format_string`. -/
def determineFormatString (length : Nat) : Option StructFormat :=
  if length ∉ [1, 2, 4] then none
  else [some .b, some .h, none, some .i].getD (length - 1) none

/-- `_get_start_and_size_of_der_field`. -/
def getStartAndSizeOfDerField (binary : List UInt8) (offset : Nat) :
    Except ParserException (Nat × Int) :=
  match binary[offset + 1]? with
  | none => .error .indexError
  | some lengthByte =>
    if lengthByte > 127 then do
      let lengthOfLength := (lengthByte ^^^ 0x80).toNat
      let formString := determineFormatString lengthOfLength
      let size ← structUnpack formString
        (slice binary (offset + 2) (offset + 2 + lengthOfLength : Nat))
      .ok (offset + 2 + lengthOfLength, size)
    else .ok (offset + 2, lengthByte.toNat)

/-- `TLV_KNOWN_STARTS`. -/
def tlvKnownStarts : List UInt8 := [0x30]

/-- The functions of the OpenSSL binding. -/
structure OpenSsl (Key Container Certificate : Type) where
  /-- `load_privatekey(FILETYPE_ASN1, buffer)`. -/
  loadPrivatekey : List UInt8 → Except ParserException Key
  /-- `dump_privatekey(FILETYPE_TEXT, pkey)`. -/
  dumpPrivatekey : Key → Except ParserException (List UInt8)
  /-- `load_pkcs12(buffer)`. -/
  loadPkcs12 : List UInt8 → Except ParserException Container
  /-- `get_certificate()`. A container may have none. -/
  getCertificate : Container → Option Certificate
  /-- `dump_certificate(FILETYPE_TEXT, cert)`. -/
  dumpCertificate : Option Certificate → Except ParserException (List UInt8)

section Model
variable {Key Container Certificate : Type}

/-- `make_unicode_string`, for bytes. -/
def makeUnicodeString (code : List UInt8) : String := decodeReplace code

/-- `read_asn1_key`. -/
def readAsn1Key (openSsl : OpenSsl Key Container Certificate) (binary : List UInt8) (offset : Nat) :
    Except ParserException (Option String) :=
  match binary[offset]? with
  | none => .error .indexError
  | some tag =>
    if tag ∉ tlvKnownStarts then .ok none
    else do
      let field ← getStartAndSizeOfDerField binary offset
      let text := do
        let key ← openSsl.loadPrivatekey (slice binary offset (field.1 + field.2))
        openSsl.dumpPrivatekey key
      match text with
      | .ok text => .ok (some (makeUnicodeString text))
      | .error .openSslError => .ok none
      | .error .typeError => .ok none
      | .error e => .error e

/-- `read_pkcs_cert`. -/
def readPkcsCert (openSsl : OpenSsl Key Container Certificate) (binary : List UInt8)
    (offset : Nat) : Except ParserException (Option String) :=
  match binary[offset]? with
  | none => .error .indexError
  | some tag =>
    if tag ∉ tlvKnownStarts then .ok none
    else do
      let field ← getStartAndSizeOfDerField binary offset
      let text := do
        let container ← openSsl.loadPkcs12 (slice binary offset (field.1 + field.2))
        openSsl.dumpCertificate (openSsl.getCertificate container)
      match text with
      | .ok text => .ok (some (makeUnicodeString text))
      | .error .openSslError => .ok none
      | .error e => .error e

/-! ## 2. DER fields -/

/-- What OpenSSL's functions may raise. Only RSA keys can be printed as text. A missing certificate
has no attributes. -/
structure OpenSsl.Documented (openSsl : OpenSsl Key Container Certificate) : Prop where
  loadPrivatekey : ∀ buffer e, openSsl.loadPrivatekey buffer = .error e → e = .openSslError
  dumpPrivatekey : ∀ key e, openSsl.dumpPrivatekey key = .error e →
    e = .openSslError ∨ e = .typeError
  loadPkcs12 : ∀ buffer e, openSsl.loadPkcs12 buffer = .error e → e = .openSslError
  dumpCertificate : ∀ cert e, openSsl.dumpCertificate (some cert) = .error e → e = .openSslError
  dumpNone : openSsl.dumpCertificate none = .error .attributeError

/-- The bytes of a definite length. -/
inductive LengthField (size : Nat) : List UInt8 → Prop
  | short (lengthByte : UInt8) (h : lengthByte.toNat < 128) (hsize : lengthByte.toNat = size) :
      LengthField size [lengthByte]
  | long (lengthByte : UInt8) (bytes : List UInt8) (hne : bytes ≠ [])
      (h : lengthByte.toNat = 128 + bytes.length) (hsize : bigEndian bytes = size) :
      LengthField size (lengthByte :: bytes)

/-- A complete field with a definite length starts at the offset. -/
def DerFieldAt (binary : List UInt8) (offset : Nat) (lengthField content : List UInt8) : Prop :=
  LengthField content.length lengthField ∧ 0x30 :: (lengthField ++ content) <+: binary.drop offset

/-- The code cuts out the field that starts at the offset. It raises nothing, and finds something
only if OpenSSL accepts what was cut out. -/
structure DerExtraction (openSsl : OpenSsl Key Container Certificate) (binary : List UInt8)
    (offset : Nat) : Prop where
  field : ∀ lengthField content, DerFieldAt binary offset lengthField content →
    ∃ start size, getStartAndSizeOfDerField binary offset = .ok (start, size) ∧
      start = offset + 1 + lengthField.length ∧ size = content.length ∧
      slice binary offset (start + size) = 0x30 :: (lengthField ++ content)
  asn1Key : ∃ key, readAsn1Key openSsl binary offset = .ok key ∧
    (key ≠ none → ∃ start size, getStartAndSizeOfDerField binary offset = .ok (start, size) ∧
      ∃ pkey, openSsl.loadPrivatekey (slice binary offset (start + size)) = .ok pkey)
  pkcsCert : ∃ cert, readPkcsCert openSsl binary offset = .ok cert ∧
    (cert ≠ none → ∃ start size, getStartAndSizeOfDerField binary offset = .ok (start, size) ∧
      ∃ container, openSsl.loadPkcs12 (slice binary offset (start + size)) = .ok container)

/-- The length at the offset is one that the code reads, and these are the bytes up to where it
ends: a short length, or one of 1, 2 or 4 bytes that are all there. If the field is complete, the
length is one that a signed number of these bytes can hold. -/
inductive ReadableField (binary : List UInt8) (offset : Nat) : List UInt8 → Prop
  | short (lengthByte : UInt8) (hbyte : binary[offset + 1]? = some lengthByte)
      (h : lengthByte.toNat < 128) :
      ReadableField binary offset (slice binary offset (offset + 2 + lengthByte.toNat : Nat))
  | long (lengthByte : UInt8) (bytes : List UInt8) (hbyte : binary[offset + 1]? = some lengthByte)
      (hlength : lengthByte.toNat = 128 + bytes.length) (h : bytes.length ∈ [1, 2, 4])
      (hbytes : bytes <+: binary.drop (offset + 2))
      (hsigned : offset + 2 + bytes.length + bigEndian bytes ≤ binary.length →
        2 * bigEndian bytes < 256 ^ bytes.length) :
      ReadableField binary offset
        (slice binary offset ((offset + 2 + bytes.length : Nat) + signedBigEndian bytes))

/-! ## 3. The header -/

section Header
variable {binary : List UInt8} {offset start : Nat} {size : Int}

/-- What the code reads as start and size. -/
inductive ReadsAs (binary : List UInt8) (offset : Nat) : Nat → Int → Prop
  | short (lengthByte : UInt8) (hbyte : binary[offset + 1]? = some lengthByte)
      (h : lengthByte.toNat < 128) : ReadsAs binary offset (offset + 2) lengthByte.toNat
  | long (lengthByte : UInt8) (bytes : List UInt8) (hbyte : binary[offset + 1]? = some lengthByte)
      (hlength : lengthByte.toNat = 128 + bytes.length) (h : bytes.length ∈ [1, 2, 4])
      (hbytes : bytes <+: binary.drop (offset + 2)) :
      ReadsAs binary offset (offset + 2 + bytes.length) (signedBigEndian bytes)

theorem toNat_xor_of_gt {lengthByte : UInt8} (h : lengthByte > 127) :
    lengthByte.toNat = 128 + (lengthByte ^^^ 0x80).toNat := by
  have hbits : ∀ n : Fin 256, 127 < n.val → n.val = 128 + (n.val ^^^ 128) := by
    decide +kernel
  rw [UInt8.toNat_xor]
  exact hbits ⟨lengthByte.toNat, lengthByte.toNat_lt⟩ (UInt8.lt_iff_toNat_lt.mp h)

/-- A number of bytes with a format. -/
theorem structUnpack_eq_ok_iff {n : Nat} {buffer : List UInt8} (hlen : buffer.length ≤ n) :
    structUnpack (determineFormatString n) buffer = .ok size ↔
      n ∈ [1, 2, 4] ∧ buffer.length = n ∧ signedBigEndian buffer = size := by
  by_cases hn : n ∈ [1, 2, 4]
  · have hformat : ∃ format, determineFormatString n = some format ∧ format.calcsize = n := by
      rw [determineFormatString, if_neg (not_not_intro hn)]
      simp only [List.mem_cons, List.not_mem_nil, or_false] at hn
      rcases hn with rfl | rfl | rfl
      · exact ⟨.b, rfl, rfl⟩
      · exact ⟨.h, rfl, rfl⟩
      · exact ⟨.i, rfl, rfl⟩
    obtain ⟨format, hformat, hsize⟩ := hformat
    rw [hformat, structUnpack, hsize]
    split
    · next hbuffer => simp [hn, hbuffer]
    · next hbuffer => simp [hbuffer]
  · rw [determineFormatString, if_pos hn, structUnpack]
    simp [hn]

/-- A long length. -/
theorem getStartAndSize_of_long {lengthByte : UInt8} (hbyte : binary[offset + 1]? = some lengthByte)
    (hlong : lengthByte > 127) :
    getStartAndSizeOfDerField binary offset = .ok (start, size) ↔
      ∃ bytes : List UInt8, lengthByte.toNat = 128 + bytes.length ∧ bytes.length ∈ [1, 2, 4] ∧
        bytes <+: binary.drop (offset + 2) ∧ start = offset + 2 + bytes.length ∧
          size = signedBigEndian bytes := by
  have hnat := toNat_xor_of_gt hlong
  simp only [getStartAndSizeOfDerField, hbyte, if_pos hlong]
  constructor
  · intro h
    obtain ⟨size', hunpack, hok⟩ := except_bind_eq_ok h
    obtain ⟨rfl, rfl⟩ := Prod.mk.inj (Except.ok.inj hok)
    obtain ⟨hmem, hlen, rfl⟩ := (structUnpack_eq_ok_iff (length_slice_add_le _ _ _)).mp hunpack
    exact ⟨_, by rw [hnat, hlen], by rwa [hlen], prefix_slice_add _ _ _, by rw [hlen], rfl⟩
  · intro hlength
    obtain ⟨bytes, hlength, hmem, hbytes, rfl, rfl⟩ := hlength
    have hn : (lengthByte ^^^ 0x80).toNat = bytes.length := by omega
    rw [hn, slice_eq_part hbytes, (structUnpack_eq_ok_iff (Nat.le_refl _)).mpr ⟨hmem, rfl, rfl⟩]
    rfl

/-- When the code gives a start and a size, and which. -/
theorem getStartAndSize_eq_ok_iff :
    getStartAndSizeOfDerField binary offset = .ok (start, size) ↔
      ReadsAs binary offset start size := by
  cases hbyte : binary[offset + 1]? with
  | none =>
    refine iff_of_false (by simp [getStartAndSizeOfDerField, hbyte]) fun h => ?_
    cases h with
    | short lengthByte h => rw [hbyte] at h; cases h
    | long lengthByte bytes h => rw [hbyte] at h; cases h
  | some lengthByte =>
    by_cases hlong : lengthByte > 127
    · have hnat := toNat_xor_of_gt hlong
      rw [getStartAndSize_of_long hbyte hlong]
      constructor
      · rintro ⟨bytes, hlength, hmem, hbytes, rfl, rfl⟩
        exact .long lengthByte bytes hbyte hlength hmem hbytes
      · intro h
        cases h with
        | short lengthByte' hbyte' hshort =>
          obtain rfl := Option.some.inj (hbyte.symm.trans hbyte')
          omega
        | long lengthByte' bytes hbyte' hlength hmem hbytes =>
          obtain rfl := Option.some.inj (hbyte.symm.trans hbyte')
          exact ⟨bytes, hlength, hmem, hbytes, rfl, rfl⟩
    · have hshort : lengthByte.toNat < 128 := by
        rw [gt_iff_lt, UInt8.lt_iff_toNat_lt] at hlong
        exact Nat.lt_succ_of_le (Nat.le_of_not_lt hlong)
      simp only [getStartAndSizeOfDerField, hbyte, if_neg hlong]
      constructor
      · intro hok
        obtain ⟨rfl, rfl⟩ := Prod.mk.inj (Except.ok.inj hok)
        exact .short lengthByte hbyte hshort
      · intro h
        cases h with
        | short lengthByte' hbyte' =>
          obtain rfl := Option.some.inj (hbyte.symm.trans hbyte')
          rfl
        | long lengthByte' bytes hbyte' hlength =>
          obtain rfl := Option.some.inj (hbyte.symm.trans hbyte')
          omega

end Header

/-! ## 4. Complete fields -/

section Fields
variable {binary lengthField content : List UInt8} {offset start : Nat} {size : Int}

theorem LengthField.exists_cons {n : Nat} (h : LengthField n lengthField) :
    ∃ lengthByte bytes, lengthField = lengthByte :: bytes := by
  cases h with
  | short lengthByte => exact ⟨lengthByte, [], rfl⟩
  | long lengthByte bytes => exact ⟨lengthByte, bytes, rfl⟩

theorem DerFieldAt.tag (h : DerFieldAt binary offset lengthField content) :
    binary[offset]? = some 0x30 :=
  getElem?_of_prefix_drop h.2 (i := 0) rfl

/-- The bytes behind the tag. -/
theorem DerFieldAt.behind_tag (h : DerFieldAt binary offset lengthField content) :
    lengthField ++ content <+: binary.drop (offset + 1) := by
  obtain ⟨rest, hrest⟩ := h.2
  refine ⟨rest, ?_⟩
  rw [← List.drop_drop, ← hrest]
  rfl

theorem DerFieldAt.lengthByte {lengthByte : UInt8} {bytes : List UInt8}
    (h : DerFieldAt binary offset (lengthByte :: bytes) content) :
    binary[offset + 1]? = some lengthByte :=
  getElem?_of_prefix_drop h.behind_tag (i := 0) rfl

/-- The bytes of the length. -/
theorem DerFieldAt.bytes {lengthByte : UInt8} {bytes : List UInt8}
    (h : DerFieldAt binary offset (lengthByte :: bytes) content) :
    bytes <+: binary.drop (offset + 2) := by
  obtain ⟨rest, hrest⟩ := h.behind_tag
  refine ⟨content ++ rest, ?_⟩
  rw [← List.drop_drop (i := 1) (j := offset + 1), ← hrest]
  simp

theorem DerFieldAt.length_le (h : DerFieldAt binary offset lengthField content) :
    offset + 1 + lengthField.length + content.length ≤ binary.length := by
  have hlen := OccursAt.length_le h.2 (List.cons_ne_nil _ _)
  rw [List.length_cons, List.length_append] at hlen
  omega

/-- A complete field is cut out when its size is read. -/
theorem DerFieldAt.slice_eq (h : DerFieldAt binary offset lengthField content)
    (hstart : start = offset + 1 + lengthField.length) (hsize : size = content.length) :
    slice binary offset (start + size) = 0x30 :: (lengthField ++ content) := by
  have hlen : (start + size : Int) =
      (offset + (0x30 :: (lengthField ++ content)).length : Nat) := by
    rw [hstart, hsize, List.length_cons, List.length_append]
    omega
  rw [hlen]
  exact slice_eq_part h.2

/-- The code reads the start of a complete field, and a size in so many bytes as it has. -/
theorem ReadsAs.of_derFieldAt (hread : ReadsAs binary offset start size)
    (h : DerFieldAt binary offset lengthField content) :
    start = offset + 1 + lengthField.length ∧
      (size = content.length ∨ ∃ lengthByte bytes, lengthField = lengthByte :: bytes ∧
        size = signedBigEndian bytes ∧ content.length = bigEndian bytes) := by
  obtain ⟨lengthByte, bytes, rfl⟩ := h.1.exists_cons
  have hbyte := h.lengthByte
  have hlength := h.1
  cases hread with
  | short lengthByte' hbyte' hshort =>
    obtain rfl := Option.some.inj (hbyte.symm.trans hbyte')
    cases hlength with
    | short _ _ hsize => exact ⟨rfl, .inl (congrArg Int.ofNat hsize)⟩
    | long _ _ _ hlong => omega
  | long lengthByte' bytes' hbyte' hlong' hmem hbytes' =>
    obtain rfl := Option.some.inj (hbyte.symm.trans hbyte')
    cases hlength with
    | short _ hshort => omega
    | long _ _ _ hlong hsize =>
      have hlen : bytes'.length = bytes.length := by omega
      obtain rfl : bytes' = bytes :=
        (List.prefix_of_prefix_length_le hbytes' h.bytes hlen.le).eq_of_length hlen
      refine ⟨?_, .inr ⟨lengthByte, bytes', rfl, rfl, hsize.symm⟩⟩
      rw [List.length_cons]
      omega

/-- The field that a length announces, if it is complete. -/
theorem derFieldAt_of_long {lengthByte : UInt8} {bytes : List UInt8}
    (htag : binary[offset]? = some 0x30) (hbyte : binary[offset + 1]? = some lengthByte)
    (hlength : lengthByte.toNat = 128 + bytes.length) (hne : bytes ≠ [])
    (hbytes : bytes <+: binary.drop (offset + 2))
    (hend : offset + 2 + bytes.length + bigEndian bytes ≤ binary.length) :
    ∃ content, content.length = bigEndian bytes ∧
      DerFieldAt binary offset (lengthByte :: bytes) content := by
  obtain ⟨rest, hrest⟩ := hbytes
  have hlen : bytes.length + rest.length = binary.length - (offset + 2) := by
    rw [← List.length_append, hrest, List.length_drop]
  have hcontent : (rest.take (bigEndian bytes)).length = bigEndian bytes := by
    rw [List.length_take]
    omega
  refine ⟨rest.take (bigEndian bytes), hcontent, ?_, rest.drop (bigEndian bytes), ?_⟩
  · rw [hcontent]
    exact .long lengthByte bytes hne hlength rfl
  · obtain ⟨hoffset, htag⟩ := List.getElem?_eq_some_iff.mp htag
    obtain ⟨hoffset', hbyte⟩ := List.getElem?_eq_some_iff.mp hbyte
    rw [List.drop_eq_getElem_cons hoffset, htag, List.drop_eq_getElem_cons hoffset', hbyte, ← hrest]
    simp

/-- What a readable field is read as. -/
theorem ReadableField.readsAs {bytes : List UInt8} (h : ReadableField binary offset bytes) :
    ∃ start size, ReadsAs binary offset start size ∧ bytes = slice binary offset (start + size) ∧
      ∀ lengthField content, DerFieldAt binary offset lengthField content →
        start = offset + 1 + lengthField.length ∧ size = content.length := by
  cases h with
  | short lengthByte hbyte hshort =>
    refine ⟨_, _, .short lengthByte hbyte hshort, by rw [Int.natCast_add], ?_⟩
    intro lengthField content hfield
    obtain ⟨hstart, hsize⟩ := (ReadsAs.short lengthByte hbyte hshort).of_derFieldAt hfield
    refine ⟨hstart, ?_⟩
    rcases hsize with hsize | ⟨lengthByte', bytes, rfl, hsize, hcontent⟩
    · exact hsize
    · -- there are no more bytes
      obtain rfl : bytes = [] := by
        rw [List.length_cons] at hstart
        exact List.length_eq_zero_iff.mp (by omega)
      rw [hsize, hcontent]
      rfl
  | long lengthByte bytes hbyte hlength hmem hbytes hsigned =>
    refine ⟨_, _, .long lengthByte bytes hbyte hlength hmem hbytes, rfl, ?_⟩
    intro lengthField content hfield
    obtain ⟨hstart, hsize⟩ :=
      (ReadsAs.long lengthByte bytes hbyte hlength hmem hbytes).of_derFieldAt hfield
    refine ⟨hstart, ?_⟩
    rcases hsize with hsize | ⟨lengthByte', bytes', rfl, -, hcontent⟩
    · exact hsize
    · have hlen : bytes.length = bytes'.length := by
        rw [List.length_cons] at hstart
        omega
      obtain rfl : bytes = bytes' :=
        (List.prefix_of_prefix_length_le hbytes hfield.bytes hlen.le).eq_of_length hlen
      have hend := hfield.length_le
      rw [List.length_cons, hcontent] at hend
      rw [hcontent]
      exact signedBigEndian_eq_iff.mpr (hsigned (by omega))

/-- When what the code reads is a readable field. -/
theorem ReadsAs.readableField (hread : ReadsAs binary offset start size)
    (htag : binary[offset]? = some 0x30)
    (hsize : ∀ lengthField content, DerFieldAt binary offset lengthField content →
      size = content.length) :
    ReadableField binary offset (slice binary offset (start + size)) := by
  cases hread with
  | short lengthByte hbyte hshort =>
    rw [← Int.natCast_add]
    exact .short lengthByte hbyte hshort
  | long lengthByte bytes hbyte hlength hmem hbytes =>
    refine .long lengthByte bytes hbyte hlength hmem hbytes fun hend => ?_
    have hne : bytes ≠ [] := by
      rintro rfl
      simp at hmem
    obtain ⟨content, hcontent, hfield⟩ :=
      derFieldAt_of_long htag hbyte hlength hne hbytes hend
    rw [← signedBigEndian_eq_iff, hsize _ _ hfield, hcontent]

end Fields

/-! ## 5. Keys and certificates -/

section Readers
variable {openSsl : OpenSsl Key Container Certificate} {binary : List UInt8} {offset start : Nat}
  {size : Int}

/-- With another tag nothing is found. -/
theorem readers_of_other_tag {tag : UInt8} (htag : binary[offset]? = some tag) (hne : tag ≠ 0x30) :
    readAsn1Key openSsl binary offset = .ok none ∧ readPkcsCert openSsl binary offset = .ok none := by
  have hunknown : tag ∉ tlvKnownStarts := by simpa [tlvKnownStarts] using hne
  simp only [readAsn1Key, readPkcsCert, htag, if_pos hunknown, and_self]

/-- An exception in the header is not caught. -/
theorem readAsn1Key_of_error {e : ParserException} (htag : binary[offset]? = some 0x30)
    (herror : getStartAndSizeOfDerField binary offset = .error e) :
    readAsn1Key openSsl binary offset = .error e := by
  simp only [readAsn1Key, htag, herror]
  rfl

/-- With a header that is read, OpenSSL decides about the key. -/
theorem readAsn1Key_of_ok (hdoc : openSsl.Documented) (htag : binary[offset]? = some 0x30)
    (hread : getStartAndSizeOfDerField binary offset = .ok (start, size)) :
    ∃ key, readAsn1Key openSsl binary offset = .ok key ∧ (key ≠ none →
      ∃ pkey, openSsl.loadPrivatekey (slice binary offset (start + size)) = .ok pkey) := by
  have hknown : ¬ (0x30 : UInt8) ∉ tlvKnownStarts := by decide
  simp only [readAsn1Key, htag, hread, if_neg hknown, bind, Except.bind]
  cases hload : openSsl.loadPrivatekey (slice binary offset (start + size)) with
  | error e =>
    obtain rfl := hdoc.loadPrivatekey _ _ hload
    exact ⟨none, rfl, fun h => absurd rfl h⟩
  | ok pkey =>
    cases hdump : openSsl.dumpPrivatekey pkey with
    | error e =>
      rcases hdoc.dumpPrivatekey _ _ hdump with rfl | rfl
      · exact ⟨none, by simp only [hdump], fun h => absurd rfl h⟩
      · exact ⟨none, by simp only [hdump], fun h => absurd rfl h⟩
    | ok text => exact ⟨some (makeUnicodeString text), by simp only [hdump], fun _ => ⟨pkey, rfl⟩⟩

/-- And about the certificate. A container without one raises an exception. -/
theorem readPkcsCert_of_ok (hdoc : openSsl.Documented) (htag : binary[offset]? = some 0x30)
    (hread : getStartAndSizeOfDerField binary offset = .ok (start, size)) :
    (∃ cert, readPkcsCert openSsl binary offset = .ok cert ∧ (cert ≠ none →
      ∃ container, openSsl.loadPkcs12 (slice binary offset (start + size)) = .ok container)) ↔
    ∀ container, openSsl.loadPkcs12 (slice binary offset (start + size)) = .ok container →
      (openSsl.getCertificate container).isSome := by
  have hknown : ¬ (0x30 : UInt8) ∉ tlvKnownStarts := by decide
  simp only [readPkcsCert, htag, hread, if_neg hknown, bind, Except.bind]
  cases hload : openSsl.loadPkcs12 (slice binary offset (start + size)) with
  | error e =>
    obtain rfl := hdoc.loadPkcs12 _ _ hload
    exact iff_of_true ⟨none, rfl, fun h => absurd rfl h⟩ fun container h => by cases h
  | ok container =>
    cases hcert : openSsl.getCertificate container with
    | none =>
      refine iff_of_false ?_ fun h => by simpa [hcert] using h container rfl
      intro hresult
      obtain ⟨cert, hok, -⟩ := hresult
      simp only [hcert, hdoc.dumpNone] at hok
      cases hok
    | some certificate =>
      refine iff_of_true ?_ fun container' h => by cases h; simp [hcert]
      simp only [hcert]
      cases hdump : openSsl.dumpCertificate (some certificate) with
      | error e =>
        obtain rfl := hdoc.dumpCertificate _ _ hdump
        exact ⟨none, rfl, fun h => absurd rfl h⟩
      | ok text => exact ⟨some (makeUnicodeString text), rfl, fun _ => ⟨container, rfl⟩⟩

/-- The code cuts out what it should and raises nothing exactly if there is another tag, or the
field can be read and a container in what is cut out has a certificate. -/
theorem derExtraction_iff (hdoc : openSsl.Documented) (hoffset : offset < binary.length) :
    DerExtraction openSsl binary offset ↔
      (binary[offset]? = some 0x30 → ∃ bytes, ReadableField binary offset bytes ∧
        ∀ container, openSsl.loadPkcs12 bytes = .ok container →
          (openSsl.getCertificate container).isSome) := by
  constructor
  · intro h htag
    cases hread : getStartAndSizeOfDerField binary offset with
    | error e =>
      obtain ⟨key, hkey, -⟩ := h.asn1Key
      rw [readAsn1Key_of_error htag hread] at hkey
      cases hkey
    | ok field =>
      have hreads := getStartAndSize_eq_ok_iff.mp hread
      refine ⟨_, hreads.readableField htag fun lengthField content hfield => ?_, ?_⟩
      · obtain ⟨start, size, hok, -, hsize, -⟩ := h.field lengthField content hfield
        rw [hread] at hok
        cases hok
        exact hsize
      · obtain ⟨cert, hcert, hsome⟩ := h.pkcsCert
        refine (readPkcsCert_of_ok hdoc htag hread).mp ⟨cert, hcert, fun hne => ?_⟩
        obtain ⟨start, size, hok, hload⟩ := hsome hne
        rw [hread] at hok
        cases hok
        exact hload
  · intro h
    by_cases htag : binary[offset]? = some 0x30
    · obtain ⟨bytes, hreadable, hcontainer⟩ := h htag
      obtain ⟨start, size, hreads, rfl, hfields⟩ := hreadable.readsAs
      have hread := getStartAndSize_eq_ok_iff.mpr hreads
      refine ⟨fun lengthField content hfield => ?_, ?_, ?_⟩
      · obtain ⟨hstart, hsize⟩ := hfields lengthField content hfield
        exact ⟨start, size, hread, hstart, hsize, hfield.slice_eq hstart hsize⟩
      · obtain ⟨key, hkey, hsome⟩ := readAsn1Key_of_ok hdoc htag hread
        exact ⟨key, hkey, fun hne => ⟨start, size, hread, hsome hne⟩⟩
      · obtain ⟨cert, hcert, hsome⟩ := (readPkcsCert_of_ok hdoc htag hread).mpr hcontainer
        exact ⟨cert, hcert, fun hne => ⟨start, size, hread, hsome hne⟩⟩
    · obtain ⟨tag, hbyte⟩ : ∃ tag, binary[offset]? = some tag := ⟨_, List.getElem?_eq_getElem hoffset⟩
      have hne : tag ≠ 0x30 := fun heq => htag (heq ▸ hbyte)
      obtain ⟨hkey, hcert⟩ := readers_of_other_tag hbyte hne
      exact ⟨fun lengthField content hfield => absurd hfield.tag htag,
        ⟨none, hkey, fun h => absurd rfl h⟩, ⟨none, hcert, fun h => absurd rfl h⟩⟩

/-- A binding for files without keys and certificates. -/
def rejectingOpenSsl : OpenSsl Unit Unit Unit where
  loadPrivatekey _ := .error .openSslError
  dumpPrivatekey _ := .ok []
  loadPkcs12 _ := .error .openSslError
  getCertificate _ := none
  dumpCertificate cert := if cert.isSome then .ok [] else .error .attributeError

theorem documented_rejectingOpenSsl : rejectingOpenSsl.Documented where
  loadPrivatekey _ _ h := (Except.error.inj h).symm
  dumpPrivatekey _ _ h := by cases h
  loadPkcs12 _ _ h := (Except.error.inj h).symm
  dumpCertificate _ _ h := by cases h
  dumpNone := rfl

/-- A byte, and a field with an empty value in it. -/
def shortField : List UInt8 := [0xFF, 0x30, 0x02, 0x05, 0x00]

/-- The field is read, and is neither a key nor a certificate. -/
theorem shortField_extracted : DerExtraction rejectingOpenSsl shortField 1 :=
  (derExtraction_iff documented_rejectingOpenSsl (by decide)).mpr fun _ =>
    ⟨_, .short 0x02 rfl (by decide), fun _ h => (by cases h)⟩

/-- A field of 128 bytes: its length is read as -128. -/
theorem largeField_lost :
    ¬ DerExtraction rejectingOpenSsl (0x30 :: 0x81 :: 0x80 :: List.replicate 128 0) 0 := by
  intro h
  have hfield : DerFieldAt (0x30 :: 0x81 :: 0x80 :: List.replicate 128 0) 0 [0x81, 0x80]
      (List.replicate 128 0) := by
    refine ⟨.long 0x81 [0x80] (List.cons_ne_nil _ _) rfl ?_, List.prefix_refl _⟩
    rw [List.length_replicate]
    rfl
  obtain ⟨start, size, hok, -, hsize, -⟩ := h.field _ _ hfield
  have hread : getStartAndSizeOfDerField (0x30 :: 0x81 :: 0x80 :: List.replicate 128 0) 0 =
      .ok (3, -128) := rfl
  rw [hread] at hok
  cases hok
  rw [List.length_replicate] at hsize
  omega

end Readers

end Model

end FactCore
