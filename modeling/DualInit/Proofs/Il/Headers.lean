import DualInit.Il.Encoding
import DualInit.Il.StoredBody
import DualInit.Proofs.Endings
import Mathlib.Algebra.GroupWithZero.Nat

/-!
# Headers are read back

The two headers have nothing in common but two bits of their first byte, which say which of the two
it is.  `EncodedBody.TinyHeader` and `EncodedBody.FatHeader` spell out, byte by byte, what is stored
of a body behind each of them.  Whatever is stored has one of these forms
(`headed_of_methodBytes`), and from either form the reader finds the code and whether locals start
out as zero (`TinyHeader.read`, `FatHeader.read`); so bodies that differ in one of these are stored
as different bytes.

That the tiny header is used whenever it can be is said without the limits that the encoder checks:
there are bytes with a tiny header, whatever they are, that are read as a body which
`StoredBody.Serves` for the given one.  The size that six bits can hold and the depth that a tiny
header stands for come to just these limits (`fitsTiny_iff_exists_tiny`).
-/

namespace DualInit

variable {b : EncodedBody} {initLocals : Bool} {first : UInt8} {rest bytes : List UInt8}

/-! ## Words at a place -/

/-- The word of so many bytes that starts at a place of some bytes. -/
def Words.wordAt (bytes : List UInt8) (start width : Nat) : Nat :=
  decode ((bytes.drop start).take width)

/-- A word is found where it was written. -/
theorem Words.wordAt_encode {start width n : Nat} (front back : List UInt8)
    (hstart : front.length = start) (hn : n < limit width) :
    wordAt (front ++ (encode width n ++ back)) start width = n := by
  rw [wordAt, List.drop_left' hstart, List.take_left' (length_encode width n), decode_encode hn]

/-! ## Stored bodies -/

namespace StoredBody

/-- A stored body does for an encoded one: it has the same code, treats locals the same way, and
its stack is deep enough. -/
def Serves (s : StoredBody) (b : EncodedBody) (initLocals : Bool) : Prop :=
  s.code = b.code ∧ s.initLocals = initLocals ∧ b.maxStack.toNat ≤ s.stackLimit

/-- Bytes are read as a body behind a tiny header exactly if their first one says tiny and counts
the others. -/
theorem read_eq_tiny {code : List UInt8} : read bytes = some ⟨.tiny, code⟩ ↔
    ∃ first : UInt8, bytes = first :: code ∧ first.toNat % 4 = 2 ∧
      first.toNat / 4 = code.length := by
  constructor
  · intro h
    cases bytes with
    | nil => cases h
    | cons first rest =>
      rw [read] at h
      split at h
      · next hkind =>
        split at h
        · next hsize =>
          obtain rfl : rest = code := congrArg StoredBody.code (Option.some.inj h)
          exact ⟨first, rfl, hkind, hsize⟩
        · cases h
      · split at h
        · -- A fat header is never taken for a tiny one.
          rw [readFat] at h
          split at h
          · cases h
          · cases h
        · cases h
  · rintro ⟨first, rfl, hkind, hsize⟩
    have htiny : first.toNat % 4 = BodyFlags.tinyFormat := hkind
    rw [read, if_pos htiny, if_pos hsize]

end StoredBody

open Words (wordAt)

/-! ## What stored bytes say -/

namespace EncodedBody

/-- A body behind a tiny header, byte by byte. -/
structure TinyHeader (b : EncodedBody) (initLocals : Bool) (first : UInt8) (rest : List UInt8) :
    Prop where
  /-- The lower two bits say that the header is tiny. -/
  kind : first.toNat % 4 = 2
  /-- The upper six bits are the size of the code. -/
  codeSize : first.toNat / 4 = b.code.length
  code : rest = b.code
  /-- Locals do not start out as zero. -/
  noLocals : initLocals = false
  /-- The stack gets no deeper than a tiny header stands for. -/
  maxStack : b.maxStack.toNat ≤ 8

/-- A body behind a fat header, byte by byte. -/
structure FatHeader (b : EncodedBody) (initLocals : Bool) (first : UInt8) (rest : List UInt8) :
    Prop where
  /-- The lower two bits say that the header is fat. -/
  kind : first.toNat % 4 = 3
  /-- The upper four bits of the first word count the words of four bytes that the header takes. -/
  headerSize : wordAt (first :: rest) 0 2 / 0x1000 = 3
  /-- A bit of the first word says whether locals start out as zero. -/
  locals : wordAt (first :: rest) 0 2 / BodyFlags.initLocals % 2 = 1 ↔ initLocals = true
  maxStack : wordAt (first :: rest) 2 2 = b.maxStack.toNat
  /-- Then comes the size of the code. -/
  codeSize : wordAt (first :: rest) 4 4 = b.code.length
  /-- No types of locals are given. -/
  localTypes : wordAt (first :: rest) 8 4 = 0
  code : ∃ header, header.length = 12 ∧ first :: rest = header ++ b.code

/-- What is behind a tiny header is read as the code. -/
theorem TinyHeader.read (h : b.TinyHeader initLocals first rest) :
    StoredBody.read (first :: rest) = some ⟨.tiny, b.code⟩ :=
  StoredBody.read_eq_tiny.mpr ⟨first, by rw [h.code], h.kind, h.codeSize⟩

/-- What is behind a fat header is read as the code, with all that the header says. -/
theorem FatHeader.read (h : b.FatHeader initLocals first rest) :
    StoredBody.read (first :: rest) = some ⟨.fat b.maxStack.toNat initLocals 0, b.code⟩ := by
  have hkind : first.toNat % 4 = BodyFlags.fatFormat := h.kind
  have hnotTiny : first.toNat % 4 ≠ BodyFlags.tinyFormat := by
    rw [hkind]
    decide
  obtain ⟨header, hlength, hbytes⟩ := h.code
  have hcode : (first :: rest).drop StoredBody.fatSize = b.code := by
    rw [hbytes]
    exact List.drop_left' hlength
  have hlong : StoredBody.fatSize ≤ (first :: rest).length := by
    rw [hbytes, List.length_append, hlength]
    exact Nat.le_add_right ..
  have hwords : 4 * (wordAt (first :: rest) 0 2 / 0x1000) = StoredBody.fatSize := by
    rw [h.headerSize]
    rfl
  have hsize : wordAt (first :: rest) 4 4 = ((first :: rest).drop StoredBody.fatSize).length := by
    rw [hcode, h.codeSize]
  have hlocals : decide (wordAt (first :: rest) 0 2 / BodyFlags.initLocals % 2 = 1) = initLocals :=
    Bool.eq_iff_iff.mpr (decide_eq_true_iff.trans h.locals)
  have hread : StoredBody.readFat (first :: rest) = some ⟨.fat (wordAt (first :: rest) 2 2)
      (decide (wordAt (first :: rest) 0 2 / BodyFlags.initLocals % 2 = 1))
      (wordAt (first :: rest) 8 4), (first :: rest).drop StoredBody.fatSize⟩ :=
    if_pos ⟨hlong, hwords, hsize⟩
  rw [StoredBody.read, if_neg hnotTiny, if_pos hkind, hread, hlocals, hcode, h.maxStack,
    h.localTypes]

/-! ## What is stored -/

/-- A tiny header says all there is to say if the code is short, the stack is shallow and locals
do not start out as zero. -/
theorem fitsTiny_iff : b.fitsTiny initLocals = true ↔
    b.code.length ≤ 63 ∧ b.maxStack.toNat ≤ 8 ∧ initLocals = false := by
  simp only [fitsTiny, Bool.and_eq_true, decide_eq_true_eq, Bool.not_eq_true', and_assoc]
  rfl

/-- The byte of a tiny header has room for both of its parts. -/
theorem tinyHeader_of_fitsTiny (h : b.fitsTiny initLocals = true) :
    b.TinyHeader initLocals (UInt8.ofNat (4 * b.code.length + BodyFlags.tinyFormat)) b.code := by
  obtain ⟨hshort, hshallow, hlocals⟩ := fitsTiny_iff.mp h
  have hroom : 4 * b.code.length + 2 < 256 := by omega
  have hbyte : (UInt8.ofNat (4 * b.code.length + BodyFlags.tinyFormat)).toNat =
      4 * b.code.length + 2 := UInt8.toNat_ofNat_of_lt' hroom
  refine ⟨?_, ?_, rfl, hlocals, hshallow⟩
  · rw [hbyte]
    omega
  · rw [hbyte]
    omega

theorem methodBytes_of_fitsTiny (h : b.fitsTiny initLocals = true) :
    b.methodBytes initLocals =
      .ok (UInt8.ofNat (4 * b.code.length + BodyFlags.tinyFormat) :: b.code) := by
  rw [methodBytes, header, if_pos h]
  rfl

/-- What the first word of a fat header says. -/
theorem fatFlags_says (initLocals : Bool) :
    (UInt8.ofNat (fatFlags initLocals)).toNat % 4 = 3 ∧
      fatFlags initLocals < Words.limit 2 ∧ fatFlags initLocals / 0x1000 = 3 ∧
      (fatFlags initLocals / BodyFlags.initLocals % 2 = 1 ↔ initLocals = true) := by
  cases initLocals <;> decide

/-- The words of a fat header behind its first byte, and the code behind them. -/
def fatRest (b : EncodedBody) (initLocals : Bool) : List UInt8 :=
  Words.encode 1 (fatFlags initLocals / 256) ++ (Words.encode 2 b.maxStack.toNat ++
    (Words.encode 4 b.code.length ++ (Words.encode 4 0 ++ b.code)))

/-- The words of a fat header have room for what they say. -/
theorem fatHeader_fatRest (hsize : b.code.length ≤ fatCodeLimit) :
    b.FatHeader initLocals (UInt8.ofNat (fatFlags initLocals)) (b.fatRest initLocals) := by
  obtain ⟨hkind, hflags, hheader, hlocals⟩ := fatFlags_says initLocals
  have hdepth : b.maxStack.toNat < Words.limit 2 := b.maxStack.toNat_lt
  have hlength : b.code.length < Words.limit 4 := Nat.lt_succ_of_le hsize
  have hfirst : wordAt (UInt8.ofNat (fatFlags initLocals) :: b.fatRest initLocals) 0 2 =
      fatFlags initLocals := Words.wordAt_encode [] _ rfl hflags
  refine ⟨hkind, ?_, ?_, ?_, ?_, ?_, ?_⟩
  · rw [hfirst, hheader]
  · rw [hfirst, hlocals]
  · exact Words.wordAt_encode (Words.encode 2 (fatFlags initLocals)) _ rfl hdepth
  · exact Words.wordAt_encode (Words.encode 2 (fatFlags initLocals) ++
      Words.encode 2 b.maxStack.toNat) _ rfl hlength
  · exact Words.wordAt_encode (Words.encode 2 (fatFlags initLocals) ++
      Words.encode 2 b.maxStack.toNat ++ Words.encode 4 b.code.length) _ rfl (by decide)
  · exact ⟨Words.encode 2 (fatFlags initLocals) ++ Words.encode 2 b.maxStack.toNat ++
      Words.encode 4 b.code.length ++ Words.encode 4 0, rfl, rfl⟩

theorem methodBytes_of_not_fitsTiny (h : b.fitsTiny initLocals = false) :
    b.methodBytes initLocals =
      if b.code.length ≤ fatCodeLimit then
        .ok (UInt8.ofNat (fatFlags initLocals) :: b.fatRest initLocals)
      else .error (.malformed .bodyTooLarge) := by
  rw [methodBytes, header, if_neg (Bool.eq_false_iff.mp h)]
  split <;> rfl

/-- Whatever is stored stands behind one of the two headers, and behind the tiny one if that one
fits. -/
theorem headed_of_methodBytes (h : b.methodBytes initLocals = .ok bytes) :
    ∃ first rest, bytes = first :: rest ∧
      (b.fitsTiny initLocals = true ∧ b.TinyHeader initLocals first rest ∨
        b.fitsTiny initLocals = false ∧ b.FatHeader initLocals first rest) := by
  cases hfits : b.fitsTiny initLocals with
  | true =>
    rw [methodBytes_of_fitsTiny hfits] at h
    exact ⟨_, _, (Except.ok.inj h).symm, Or.inl ⟨rfl, tinyHeader_of_fitsTiny hfits⟩⟩
  | false =>
    rw [methodBytes_of_not_fitsTiny hfits] at h
    split at h
    · next hsize => exact ⟨_, _, (Except.ok.inj h).symm, Or.inr ⟨rfl, fatHeader_fatRest hsize⟩⟩
    · cases h

/-- Everything but code that no header can give the size of can be stored. -/
theorem exists_methodBytes (initLocals : Bool) (hsize : b.code.length < 2 ^ 32) :
    ∃ bytes, b.methodBytes initLocals = .ok bytes := by
  cases hfits : b.fitsTiny initLocals with
  | true => exact ⟨_, methodBytes_of_fitsTiny hfits⟩
  | false => exact ⟨_, (methodBytes_of_not_fitsTiny hfits).trans (if_pos (Nat.le_of_lt_succ hsize))⟩

/-! ## What is read -/

theorem TinyHeader.serves (h : b.TinyHeader initLocals first rest) :
    (⟨.tiny, b.code⟩ : StoredBody).Serves b initLocals :=
  ⟨rfl, h.noLocals.symm, h.maxStack⟩

/-- What is stored is read as a body that does for the encoded one. -/
theorem exists_read_of_methodBytes (h : b.methodBytes initLocals = .ok bytes) :
    ∃ s, StoredBody.read bytes = some s ∧ s.Serves b initLocals := by
  obtain ⟨first, rest, rfl, ⟨-, htiny⟩ | ⟨-, hfat⟩⟩ := headed_of_methodBytes h
  · exact ⟨_, htiny.read, htiny.serves⟩
  · exact ⟨_, hfat.read, rfl, rfl, Nat.le_refl _⟩

/-- Bodies that are stored as the same bytes have the same code and treat locals the same way. -/
theorem eq_of_methodBytes_eq {b' : EncodedBody} {initLocals' : Bool}
    (h : b.methodBytes initLocals = .ok bytes) (h' : b'.methodBytes initLocals' = .ok bytes) :
    b'.code = b.code ∧ initLocals' = initLocals := by
  obtain ⟨s, hread, hcode, hlocals, -⟩ := exists_read_of_methodBytes h
  obtain ⟨s', hread', hcode', hlocals', -⟩ := exists_read_of_methodBytes h'
  obtain rfl := Option.some.inj (hread.symm.trans hread')
  exact ⟨hcode'.symm.trans hcode, hlocals'.symm.trans hlocals⟩

/-- The limits of a tiny header are those of its byte: it fits if any bytes with such a header do
for the body. -/
theorem fitsTiny_iff_exists_tiny : b.fitsTiny initLocals = true ↔
    ∃ bytes s, StoredBody.read bytes = some s ∧ s.form = .tiny ∧ s.Serves b initLocals := by
  constructor
  · intro h
    have htiny := tinyHeader_of_fitsTiny h
    exact ⟨_, _, htiny.read, rfl, htiny.serves⟩
  · rintro ⟨bytes, ⟨form, code⟩, hread, hform, hcode, hlocals, hdepth⟩
    obtain rfl : form = .tiny := hform
    obtain rfl : code = b.code := hcode
    obtain ⟨first, -, -, hsize⟩ := StoredBody.read_eq_tiny.mp hread
    have hbyte : first.toNat < 256 := first.toNat_lt
    exact fitsTiny_iff.mpr ⟨by omega, hdepth, hlocals.symm⟩

/-- **Headers are read back.**  A body whose code is shorter than 2 ^ 32 bytes can be stored.  If
the lower two bits of the first byte say that the header is tiny, the upper six are the size of the
code, locals do not start out as zero and the stack is at most eight deep; otherwise the header is a
fat one, and gives the depth, the size and what is to be done with locals as they are.  The rest is
the code.  The tiny header is used exactly if there are bytes at all that have one and are read as a
body that does for the given one.  So reading gives back what was stored, and the code and the
treatment of locals can be told from the bytes. -/
theorem methodBytes_read_back (b : EncodedBody) (initLocals : Bool)
    (hsize : b.code.length < 2 ^ 32) :
    ∃ first rest, b.methodBytes initLocals = .ok (first :: rest) ∧
      (first.toNat % 4 = 2 → b.TinyHeader initLocals first rest) ∧
      (first.toNat % 4 ≠ 2 → b.FatHeader initLocals first rest) ∧
      (first.toNat % 4 = 2 ↔ ∃ bytes s, StoredBody.read bytes = some s ∧ s.form = .tiny ∧
        s.Serves b initLocals) ∧
      (∃ s, StoredBody.read (first :: rest) = some s ∧ s.Serves b initLocals) ∧
      ∀ (b' : EncodedBody) (initLocals' : Bool),
        b'.methodBytes initLocals' = .ok (first :: rest) →
          b'.code = b.code ∧ initLocals' = initLocals := by
  obtain ⟨bytes, hbytes⟩ := exists_methodBytes initLocals hsize
  obtain ⟨first, rest, rfl, hheader⟩ := headed_of_methodBytes hbytes
  have hread := exists_read_of_methodBytes hbytes
  have hsame (b' : EncodedBody) (initLocals' : Bool)
      (hbytes' : b'.methodBytes initLocals' = .ok (first :: rest)) :=
    eq_of_methodBytes_eq hbytes hbytes'
  rcases hheader with ⟨hfits, htiny⟩ | ⟨hfits, hfat⟩
  · exact ⟨first, rest, hbytes, fun _ => htiny, fun hkind => absurd htiny.kind hkind,
      iff_of_true htiny.kind (fitsTiny_iff_exists_tiny.mp hfits), hread, hsame⟩
  · have hkind : first.toNat % 4 ≠ 2 := by
      rw [hfat.kind]
      decide
    have hnone := mt fitsTiny_iff_exists_tiny.mpr (Bool.eq_false_iff.mp hfits)
    exact ⟨first, rest, hbytes, fun htiny => absurd htiny hkind, fun _ => hfat,
      iff_of_false hkind hnone, hread, hsame⟩

/-- One byte of code more than a tiny header can count. -/
theorem methodBytes_read_back_limit :
    (∃ first rest, (⟨List.replicate 63 0x2A, 8, []⟩ : EncodedBody).methodBytes false =
        .ok (first :: rest) ∧
      (⟨List.replicate 63 0x2A, 8, []⟩ : EncodedBody).TinyHeader false first rest) ∧
    ∃ first rest, (⟨List.replicate 64 0x2A, 8, []⟩ : EncodedBody).methodBytes false =
        .ok (first :: rest) ∧
      (⟨List.replicate 64 0x2A, 8, []⟩ : EncodedBody).FatHeader false first rest := by
  constructor
  · obtain ⟨first, rest, hbytes, htiny, -, hiff, -⟩ :=
      methodBytes_read_back ⟨List.replicate 63 0x2A, 8, []⟩ false (by decide)
    exact ⟨first, rest, hbytes, htiny (hiff.mpr (fitsTiny_iff_exists_tiny.mp rfl))⟩
  · obtain ⟨first, rest, hbytes, -, hfat, hiff, -⟩ :=
      methodBytes_read_back ⟨List.replicate 64 0x2A, 8, []⟩ false (by decide)
    exact ⟨first, rest, hbytes,
      hfat fun hkind => absurd (fitsTiny_iff_exists_tiny.mpr (hiff.mp hkind)) (by decide)⟩

end EncodedBody
end DualInit
