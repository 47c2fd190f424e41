import ScopedFn.Proofs.Envelope.Objects
import ScopedFn.Proofs.Envelope.RoundTrip
import ScopedFn.Proofs.Resource.Removal
import ScopedFn.Proofs.Value.Decidable
import ScopedFn.Proofs.Yaml.Document

/-!
# Envelopes without reader annotations

Reader annotations are removed from a copy of the resource, so what is sent is the resource without
them, and the resource itself stays as it is. The copy has the sharing of its model, though: where the
text of a resource names its annotations a second time, as those of a pod template, the removal shows
there too.

* `Envelope.StripsOnly` : reader annotations are removed from the copy, and nothing else is;
* `Envelope.stripsOnly_iff` : when this is so;
* `Envelope.strips_alias` : a template that loses an annotation.
-/

set_option autoImplicit false

namespace ScopedFn

namespace Yaml

variable {lo : ℕ} {w : Register lo} {v : Value}

theorem Recorded.coherent (h : Recorded w v) : Coherent v.maps := coherent_of_recorded h.maps

end Yaml

/-- The resource has been read from a text, by itself or out of an envelope or a stream. -/
inductive Resource.IsRead (r : Resource) : Prop
  /-- It is the only document of the text. -/
  | alone {text : String} {supply supply' : Supply}
    (h : (ofText text).run supply = .ok (r, supply'))
  /-- It is one of the resources that a function wrote. -/
  | written {text : String} {supply supply' : Supply} {decoded : Envelope.Decoded}
    (h : (Envelope.decode text).run supply = .ok (decoded, supply')) (hr : r ∈ decoded.resources)

theorem Resource.IsRead.recorded {r : Resource} (h : r.IsRead) :
    ∃ (lo : ℕ) (w : Yaml.Register lo), Yaml.Recorded w r.toValue := by
  cases h with
  | @alone text supply supply' h =>
    unfold ofText StateT.run at h
    dsimp only at h
    split at h
    · cases h
    · rename_i v supply'' hread
      obtain ⟨w, hw⟩ := Yaml.recorded_readOne hread
      cases v with
      | map id es =>
        obtain ⟨rfl, -⟩ := Prod.mk.inj (Except.ok.inj h)
        exact ⟨supply, w, hw⟩
      | _ => cases h
  | written h hr =>
    obtain ⟨w, -, hall⟩ := Envelope.recorded_decode h
    exact ⟨_, w, hall _ hr⟩

namespace Envelope

variable {config : Option Resource} {rs : List Resource} {r : Resource} {supply : Supply} {i : ℕ}

/-- Of the resource at a position the envelope without reader annotations holds what it says apart from
these, and all that is sent stays as it is. -/
structure StripsOnly (config : Option Resource) (rs : List Resource) (supply : Supply) (i : ℕ)
    (r : Resource) : Prop where
  /-- The item says what the resource says, without the reader annotations. -/
  item : ((pack config rs false supply).items[i]?).map (fun item => item.value.contents) =
    some (r.stripped readerKeys).toValue.contents
  /-- The edits change no resource that is sent. -/
  untouched : ∀ r ∈ config.toList ++ rs, r.editAll (pack config rs false supply).edits = r

theorem contents_items (config : Option Resource) (rs : List Resource) (keep : Bool)
    (supply : Supply) : (pack config rs keep supply).items.map (fun item => item.value.contents) =
      rs.map fun r => (sent keep r).toValue.contents := by
  have hplace := congrArg (List.map Value.contents) (pack_items config rs keep supply)
  rw [Part.contents_place, List.map_map, List.map_map] at hplace
  exact hplace

/-- What is sent stays as it is: the edits concern copies. -/
theorem editAll_pack (config : Option Resource) (rs : List Resource) (keep : Bool) (supply : Supply) :
    ∀ r ∈ config.toList ++ rs, r.editAll (pack config rs keep supply).edits = r := fun r hr =>
  Resource.editAll_eq_self (le_trans ((le_foldl_max 1 _).2 r hr) (le_max_right supply _))
    (fresh_pack config rs keep supply)

/-- **When nothing but reader annotations is removed.** Each map that loses an entry has to stand at
one place only: the annotations if they have a path or an index, and the metadata if no annotation is
left. -/
theorem stripsOnly_iff (config : Option Resource) (supply : Supply) (hr : r.IsRead)
    (hi : rs[i]? = some r) : StripsOnly config rs supply i r ↔
      ∀ id ∈ r.losing readerKeys, r.toValue.objects.count id = 1 := by
  obtain ⟨lo, w, hrecorded⟩ := hr.recorded
  have hitem : ((pack config rs false supply).items[i]?).map (fun item => item.value.contents) =
      some (r.editAll (removals r readerKeys)).toValue.contents := by
    rw [← List.getElem?_map, contents_items, List.getElem?_map, hi]
    rfl
  have hkeys : readerKeys ≠ [] := by decide
  rw [← Resource.contents_removals_iff hrecorded.keyed hrecorded.coherent hkeys]
  constructor
  · intro h
    exact Option.some.inj (hitem.symm.trans h.item)
  · intro h
    exact ⟨hitem.trans (congrArg some h), editAll_pack config rs false supply⟩

/-- The map of two annotations. -/
def twoAnnotated (id : ObjectId) : Value :=
  .map id [(.text pathKey, .text "x.yaml"), (.text "team", .text "t")]

/-- The text of a resource whose status is its specification. -/
def sharedStatusText : String :=
  "metadata:\n  annotations:\n    config.kubernetes.io/path: x.yaml\nspec: &s\n  a: b\nstatus: *s\n"

/-- This resource. -/
def sharedStatus : Resource :=
  ⟨1, [(.text "metadata", .map 3 [(.text "annotations", .map 5 [(.text pathKey, .text "x.yaml")])]),
    (.text "spec", .map 9 [(.text "a", .text "b")]),
    (.text "status", .map 9 [(.text "a", .text "b")])]⟩

/-- What is shared beside the annotations does no harm. -/
theorem stripsOnly_sharedStatus :
    (Resource.ofText sharedStatusText).run 1 = .ok (sharedStatus, 13) ∧
    StripsOnly none [sharedStatus] 13 0 sharedStatus := by
  have hread : (Resource.ofText sharedStatusText).run 1 = .ok (sharedStatus, 13) := by decide +kernel
  exact ⟨hread, (stripsOnly_iff none 13 (.alone hread) rfl).2 (by decide +kernel)⟩

/-- The text of a resource whose template has the annotations of the resource. -/
def sharedTemplateText : String :=
  "metadata:\n  annotations: &a \x7bconfig.kubernetes.io/path: x.yaml, team: t\x7d\n" ++
    "spec:\n  template:\n    metadata:\n      annotations: *a\n"

/-- This resource. -/
def sharedTemplate : Resource :=
  ⟨1, [(.text "metadata", .map 3 [(.text "annotations", twoAnnotated 5)]),
    (.text "spec", .map 11 [(.text "template", .map 13 [
      (.text "metadata", .map 15 [(.text "annotations", twoAnnotated 5)])])])]⟩

/-- **A template that loses an annotation.** It is the map that the reader annotations are removed
from. -/
theorem strips_alias :
    (Resource.ofText sharedTemplateText).run 1 = .ok (sharedTemplate, 17) ∧
    ¬ StripsOnly none [sharedTemplate] 17 0 sharedTemplate := by
  refine ⟨by decide +kernel, fun h => ?_⟩
  have hitem := h.item
  revert hitem
  decide +kernel

end Envelope

end ScopedFn
