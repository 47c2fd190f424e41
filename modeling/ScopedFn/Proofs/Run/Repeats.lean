import ScopedFn.Process.Script
import ScopedFn.Proofs.Envelope.Sharing
import ScopedFn.Proofs.Run.Calls

/-!
# Programs that repeat their input

The function that does nothing writes what it is sent. A call of it gives the resources that it was
called on, as far as the text of an envelope says what the envelope says.

* `Repeats` : a program that repeats its input and ends well;
* `Invoker.exists_calls_of_repeats` : what a call of it gives.
-/

set_option autoImplicit false

namespace ScopedFn

/-- A program that writes its input, all of it and nothing else, and ends well. -/
def Repeats (child : Child) : Prop := ∀ req, child req = .ended 0 req.input.toUTF8.toList

theorem repeats_identity : Repeats Script.identity.child := fun req => by
  simp [Script.child, Script.identity, Script.replaced]

namespace Text

theorem loop_toList (bytes : ByteArray) (i : ℕ) (before : List UInt8) :
    ByteArray.toList.loop bytes i before = before.reverse ++ bytes.data.toList.drop i := by
  induction i, before using ByteArray.toList.loop.induct bytes with
  | case1 i before hi ih =>
    have hdrop : bytes.data.toList.drop i = bytes.get! i :: bytes.data.toList.drop (i + 1) := by
      rw [List.drop_eq_getElem_cons (by simpa using hi)]
      simp [ByteArray.get!, getElem!_pos bytes.data i hi]
    rw [ByteArray.toList.loop, if_pos hi, ih, hdrop, List.reverse_cons, List.append_assoc,
      List.singleton_append]
  | case2 i before hi =>
    rw [ByteArray.toList.loop, if_neg hi, List.drop_eq_nil_of_le (by simpa using hi), List.append_nil]

/-- The bytes of a text are those of no other text. -/
theorem fromUTF8?_toUTF8 (text : String) :
    String.fromUTF8? (ByteArray.mk text.toUTF8.toList.toArray) = some text := by
  have hbytes : ByteArray.mk text.toUTF8.toList.toArray = text.toUTF8 := by
    rw [ByteArray.toList, loop_toList, List.reverse_nil, List.nil_append, List.drop_zero,
      Array.toArray_toList]
  rw [hbytes]
  exact dif_pos text.isValidUTF8

end Text

namespace Invoker

open Provenance Resource

variable {inv : Invoker} {child : Child} {d : Descriptor} {rs : List Resource} {w : World}

theorem readOutput_toUTF8 (status : Int) (text : String) (supply : Supply) :
    readOutput status text.toUTF8.toList supply = (Envelope.decode text).run supply := by
  rw [readOutput, outputText, Text.fromUTF8?_toUTF8]

/-- **A call of a program that repeats its input** gives the resources that it was called on. They
hold every map once if each of these did. -/
theorem exists_calls_of_repeats (hchild : Repeats child)
    (hkeep : inv.settings.keepReaderAnnotations = true) {command : List String}
    (hcommand : inv.command d inv.environment = .ok command)
    (hback : (inv.package d rs w.supply).ReadsBack w.supply) :
    ∃ i w', Calls inv child d rs w (.ok i) w' ∧ i.succeeded = true ∧ i.results = none ∧
      i.resources.map Resource.contents = rs.map Resource.contents ∧
      BoundedBy w'.supply i.resources ∧
      ((∀ r ∈ rs, r.toValue.objects.Nodup) → (objectsOf i.resources).Nodup) := by
  have hpackage : inv.package d rs w.supply = Envelope.pack d.config rs true w.supply := by
    rw [package, hkeep]
  rw [hpackage] at hback
  obtain ⟨text, decoded, supply, hencode, hdecode, hcontents, hresults, hnodup⟩ := hback.exists_decode
  have hread : readOutput 0 text.toUTF8.toList w.supply = .ok (decoded, supply) :=
    (readOutput_toUTF8 0 text w.supply).trans hdecode
  exact ⟨_, _, .answered hcommand (hpackage ▸ hencode) (hchild _) hread, rfl, hresults, hcontents,
    fun r hr => ((Envelope.within_decode hdecode).2 r hr).bound, hnodup⟩

end Invoker

end ScopedFn
