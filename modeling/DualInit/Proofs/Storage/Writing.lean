import DualInit.Proofs.Storage.Bodies
import DualInit.Proofs.Storage.Requests

/-!
# What a write does and when it fails

A write encodes every body before it touches the image that is stored, and then replaces the
assembly and the bodies of this image together.  So a write that fails has changed nothing, and
names the first body that is at fault, or else the place where nothing is stored
(`writeAssembly_error`).  A write that succeeds leaves exactly the bodies of the assembly that was
written: those of earlier writes are gone, and sections that share a token do not share a body.

`Store.Written` lists what is different after a write and what is not; `ends_writeAssembly_exact`
puts both cases together.
-/

namespace DualInit
namespace Store

variable {s t : Store} {path : Path} {a : Assembly} {e : Error}

/-- A write fails exactly if some body cannot be encoded, and then for the first of these, or if
nothing is stored in its place. -/
theorem writeAssembly_error :
    s.writeAssembly path a = .error e ↔
      Image.FirstFault (a.sections.flatMap Section.methods) e ∨
      (∀ sec ∈ a.sections, ∀ m ∈ sec.methods, m.Encodes) ∧ s.image? path = none ∧
        e = .assemblyNotStored path := by
  rw [← Image.encodeBodies_error, ← Image.exists_encodeBodies, writeAssembly]
  cases hbodies : Image.encodeBodies a with
  | error e' => simp [bind, Except.bind]
  | ok bodies =>
    cases hi : s.image? path with
    | none => simp [bind, Except.bind, throw, throwThe, MonadExceptOf.throw, eq_comm]
    | some i => simp [bind, Except.bind, pure, Except.pure]

/-- The store `t` is the store `s` with an assembly written at a path. -/
structure Written (path : Path) (a : Assembly) (s t : Store) : Prop where
  /-- An image is replaced: it has the assembly without its symbols and counts one more write, and
  the symbols that were stored are still there. -/
  replaced : ∃ before after, s.image? path = some before ∧ t.image? path = some after ∧
    after.assembly = a.withoutSymbols ∧ after.writes = before.writes + 1 ∧
    after.symbols = before.symbols ∧ after.symbolWrites = before.symbolWrites
  /-- Every method that has a body can be found with the header and the code of this body. -/
  stored : ∀ (i : Nat) (sec : Section) (m : MethodDef) (body : MethodBody),
    a.sections[i]? = some sec → m ∈ sec.methods → m.body = some body →
    ∃ b header, encode body.instructions m.signature.returnsValue = .ok b ∧
      b.header body.initLocals = .ok header ∧
      t.methodBytes? path i m.token = some (header ++ b.code)
  /-- No bytes are found for anything else. -/
  cleared : ∀ (i : Nat) (token : Token),
    (¬ ∃ sec, a.sections[i]? = some sec ∧ ∃ m ∈ sec.methods, m.token = token ∧ m.body ≠ none) →
    t.methodBytes? path i token = none
  /-- What is open stays open. -/
  locked : t.locked = s.locked
  /-- The formats that symbols can be written in stay. -/
  symbolFormats : t.symbolFormats = s.symbolFormats
  /-- What is stored elsewhere stays. -/
  elsewhere : ∀ other : Path, other.location ≠ path.location → t.image? other = s.image? other

theorem written_of_writeAssembly_ok
    (hdistinct : ∀ sec ∈ a.sections, (sec.methods.map (·.token)).Nodup)
    (h : s.writeAssembly path a = .ok t) : Written path a s t := by
  obtain ⟨before, bodies, hbefore, hbodies, rfl⟩ := writeAssembly_ok.mp h
  have hbytes : ∀ i token, (s.putImage path (before.withAssembly a bodies)).methodBytes? path i token
      = bodies.lookup (i, token) := by
    intro i token
    rw [methodBytes?, image?_putImage_self]
    rfl
  refine ⟨⟨before, _, hbefore, image?_putImage_self, rfl, rfl, rfl, rfl⟩, ?_, ?_, rfl, rfl, ?_⟩
  · intro i sec m body hsec hm hbody
    obtain ⟨bytes, hencoded, hlookup⟩ :=
      Image.lookup_of_encodeBodies hbodies hsec (hdistinct sec (List.mem_of_getElem? hsec)) hm
    obtain ⟨b, header, hb, hheader, rfl⟩ := (MethodDef.encoded_ok_of_body hbody).mp hencoded
    exact ⟨b, header, hb, hheader, (hbytes i m.token).trans hlookup⟩
  · intro i token hout
    rw [hbytes]
    refine Image.lookup_eq_none_of_encodeBodies hbodies hdistinct fun sec hsec m hm htoken => ?_
    cases hbody : m.body with
    | none => rfl
    | some body => exact absurd ⟨sec, hsec, m, hm, htoken, by simp [hbody]⟩ hout
  · intro other hother
    rw [image?_putImage, if_neg hother]

/-- A write that fails leaves the store as it was.  It fails for the first body that cannot be
encoded, in the order of sections, types and methods, and if there is none because nothing is
stored at the path.  A write that succeeds has written the assembly, and nothing but this. -/
theorem ends_writeAssembly_exact
    (hdistinct : ∀ sec ∈ a.sections, (sec.methods.map (·.token)).Nodup) :
    (∀ e t, (Codec.writeAssembly path a : Edit Store Unit).Ends s (.error e) t ↔ t = s ∧
      (Image.FirstFault (a.sections.flatMap Section.methods) e ∨
        (∀ sec ∈ a.sections, ∀ m ∈ sec.methods, m.Encodes) ∧ s.image? path = none ∧
          e = .assemblyNotStored path)) ∧
    ∀ t, (Codec.writeAssembly path a : Edit Store Unit).Ends s (.ok ()) t → Written path a s t := by
  constructor
  · intro e t
    refine Edit.ends_attemptChange_error.trans ?_
    rw [writeAssembly_error, and_comm]
  · intro t h
    exact written_of_writeAssembly_ok hdistinct (Edit.ends_attemptChange_ok.mp h)

end Store

/-! ## A sample -/

namespace Sample

def twinsPath : Path :=
  ⟨"bin/Twins.dll"⟩

/-- A section with a single type. -/
def sectionWith (name : String) (methods : List MethodDef) : Section :=
  ⟨name, [], [⟨⟨0x02000001⟩, "", "Program", 0, none, none, methods⟩], [], [], none⟩

/-- An assembly whose two sections both have a method of one token, with different bodies. -/
def twins : Assembly :=
  ⟨"Twins", [
    sectionWith "Twins.dll" [⟨⟨0x06000001⟩, "Main", 0, 0, .instanceVoid, [], some ⟨.emptyBody, false⟩⟩,
      ⟨⟨0x06000002⟩, "Provided", 0, 0, .instanceVoid, [], none⟩],
    sectionWith "Twins.Extra.netmodule" [⟨⟨0x06000001⟩, "Main", 0, 0, .instanceReturning .int32, [],
      some ⟨⟨[⟨.ldcI4One, .none⟩, ⟨.ret, .none⟩]⟩, false⟩⟩]]⟩

/-- A store with an older version of the assembly, in which a method has a body that has none in the
new one. -/
def storeWorn : Store :=
  (Store.empty []).putImage twinsPath
    ((Image.ofAssembly ⟨"Twins", []⟩).withAssembly ⟨"Twins", []⟩ [((0, ⟨0x06000002⟩), [0x06, 0x2A])])

/-- The store with the new version. -/
def storeTwins : Store :=
  ((Codec.writeAssembly twinsPath twins : Edit Store Unit).run storeWorn).state

end Sample

theorem ends_writeAssembly_exact_sample :
    (∀ sec ∈ Sample.twins.sections, (sec.methods.map (·.token)).Nodup) ∧
      Store.Written Sample.twinsPath Sample.twins Sample.storeWorn Sample.storeTwins ∧
      (Sample.storeWorn.methodBytes? Sample.twinsPath 0 ⟨0x06000002⟩ = some [0x06, 0x2A] ∧
        Sample.storeTwins.methodBytes? Sample.twinsPath 0 ⟨0x06000002⟩ = none) ∧
      (Sample.storeTwins.methodBytes? Sample.twinsPath 0 ⟨0x06000001⟩ = some [0x06, 0x2A] ∧
        Sample.storeTwins.methodBytes? Sample.twinsPath 1 ⟨0x06000001⟩ = some [0x0A, 0x17, 0x2A]) ∧
      (Codec.writeAssembly ⟨"lib/Twins.dll"⟩ Sample.twins : Edit Store Unit).Ends Sample.storeWorn
        (.error (.assemblyNotStored ⟨"lib/Twins.dll"⟩)) Sample.storeWorn := by
  have hdistinct : ∀ sec ∈ Sample.twins.sections, (sec.methods.map (·.token)).Nodup := by
    decide +kernel
  have hencodes : ∀ sec ∈ Sample.twins.sections, ∀ m ∈ sec.methods, m.Encodes :=
    Image.exists_encodeBodies.mp ⟨_, rfl⟩
  refine ⟨hdistinct, (Store.ends_writeAssembly_exact hdistinct).2 _ ⟨rfl, rfl⟩, ?_, ?_, ?_⟩
  · decide +kernel
  · decide +kernel
  · exact ((Store.ends_writeAssembly_exact hdistinct).1 _ _).mpr
      ⟨rfl, Or.inr ⟨hencodes, by decide +kernel, rfl⟩⟩

end DualInit
